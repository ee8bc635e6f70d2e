import ColonMachine.Proofs.Positions
import ColonMachine.Proofs.Restraint

/-!
# Listings and execution agree on where instructions end

Code is decoded twice: a listing takes items off it, and the machine fetches bytes from it one by
one.  Both divide it at the same places.

* `Code.Listed` follows a listing from item to item, each of which begins where the one before ends;
  every listing does, up to the very end of the code (`listed_items`), and so its items cover every
  byte once (`covered_of_listed`).
* `Executing` says what executing an item comes to, with the counter on the last byte of the item
  once all its bytes have been fetched.  `executing` is the one lemma where the machine's way of
  fetching is compared with the listing's.

That the two faults of decoding mean what a listing shows needs the converse as well: whatever else
an instruction does, it raises neither of them (`Restrained`).
-/

namespace ColonMachine

/-! ## Items -/

lemma Opcode.code_of_ofCode? {byte : Code} {op : Opcode} (h : ofCode? byte = some op) :
    byte = op.code := by
  unfold ofCode? at h
  split_ifs at h with h0 h1 h2 h3 h4 h5
  all_goals
    cases h
    assumption

namespace Item

variable {code : List Code} {pc next : ℕ} {item : Item}

lemma width_pos (item : Item) : 0 < item.width := by cases item <;> simp [width]

/-- How an item comes out of the byte that it begins with and those behind it. -/
inductive Decoded (byte : Code) (rest : List Code) : Item → Prop where
  | unknown (hbyte : Opcode.ofCode? byte = none) : Decoded byte rest (.unknown byte)
  | lacking {op : Opcode} (hbyte : byte = op.code) (hop : op.hasOperand = true)
      (hrest : rest = []) :
      Decoded byte rest (.lacking op)
  | finish (hbyte : byte = Opcode.ret.code) (hrest : rest = []) : Decoded byte rest .finish
  | plain {op : Opcode} (hbyte : byte = op.code) (hop : op.hasOperand = false) :
      Decoded byte rest (.plain op)
  | operand {op : Opcode} {arg : Code} {rest' : List Code} (hbyte : byte = op.code)
      (hop : op.hasOperand = true) (hrest : rest = arg :: rest') :
      Decoded byte rest (.operand op arg)

lemma decoded (byte : Code) (rest : List Code) : Decoded byte rest (decode byte rest) := by
  rw [decode]
  cases hbyte : Opcode.ofCode? byte with
  | none => exact .unknown hbyte
  | some op =>
      have hcode := Opcode.code_of_ofCode? hbyte
      dsimp only
      split_ifs with hop hlast
      · cases rest with
        | nil => exact .lacking hcode hop rfl
        | cons arg rest => exact .operand hcode hop rfl
      · obtain ⟨hret, hrest⟩ : op = .ret ∧ rest = [] := by simpa using hlast
        exact .finish (hret ▸ hcode) hrest
      · exact .plain hcode (by simpa using hop)

/-- An item takes its operand from the bytes behind its opcode. -/
lemma width_decode_le (byte : Code) (rest : List Code) :
    (decode byte rest).width ≤ rest.length + 1 := by
  have hdecoded := decoded byte rest
  generalize decode byte rest = item at hdecoded
  cases hdecoded with
  | operand hbyte hop hrest => simp [width, hrest]
  | _ => simp [width]

lemma at?_eq_some (h : at? code pc = some (item, next)) :
    ∃ byte rest, code.drop pc = byte :: rest ∧ item = decode byte rest ∧
      next = pc + item.width := by
  rw [at?] at h
  rcases hdrop : code.drop pc with _ | ⟨byte, rest⟩
  · rw [hdrop] at h
    cases h
  · rw [hdrop] at h
    cases h
    exact ⟨byte, rest, rfl, rfl, rfl⟩

lemma exists_at? (hpc : pc < code.length) : ∃ item next, at? code pc = some (item, next) := by
  rw [at?, List.drop_eq_getElem_cons hpc]
  exact ⟨_, _, rfl⟩

/-- An item is not empty, and ends within the code. -/
lemma next_of_at? (h : at? code pc = some (item, next)) : pc < next ∧ next ≤ code.length := by
  obtain ⟨byte, rest, hdrop, rfl, rfl⟩ := at?_eq_some h
  have hlength := congrArg List.length hdrop
  rw [List.length_drop, List.length_cons] at hlength
  have hpos := width_pos (decode byte rest)
  have hle := width_decode_le byte rest
  omega

end Item

/-! ## Listings -/

namespace Code

/-- From `pc` on, the items follow one another to the end of the code. -/
inductive Listed (code : List Code) : ℕ → List (Item × ℕ) → Prop where
  | finish : Listed code code.length []
  | item {pc next : ℕ} {item : Item} {items : List (Item × ℕ)}
      (h : Item.at? code pc = some (item, next)) (hrest : Listed code next items) :
      Listed code pc ((item, next) :: items)

/-- The positions that items cover, of which the first begins at `pc`. -/
def covered : (pc : ℕ) → List (Item × ℕ) → List ℕ
  | _, [] => []
  | pc, (_, next) :: items => List.range' pc (next - pc) ++ covered next items

variable {code : List Code} {pc : ℕ}

/-- The induction is over the number of bytes that are left. -/
lemma listed_itemsAfter (hpc : pc ≤ code.length) :
    Listed code pc (itemsAfter 0 pc (code.drop pc)) := by
  induction hleft : code.length - pc using Nat.strongRecOn generalizing pc with
  | _ left ih =>
    rcases Nat.lt_or_eq_of_le hpc with hlt | rfl
    · obtain ⟨item, next, hat⟩ := Item.exists_at? hlt
      obtain ⟨hpcnext, hnext⟩ := Item.next_of_at? hat
      obtain ⟨byte, rest, hdrop, rfl, rfl⟩ := Item.at?_eq_some hat
      have hskip : itemsAfter ((Item.decode byte rest).width - 1) (pc + 1) rest =
          itemsAfter 0 (pc + (Item.decode byte rest).width)
            (code.drop (pc + (Item.decode byte rest).width)) := by
        have hrest : rest = code.drop (pc + 1) := by rw [← List.drop_drop, hdrop]; rfl
        have hstep :
            pc + 1 + ((Item.decode byte rest).width - 1) = pc + (Item.decode byte rest).width := by
          omega
        rw [itemsAfter_skip, hstep, ← hstep, ← List.drop_drop, ← hrest]
      rw [hdrop, itemsAfter, hskip]
      exact .item hat (ih _ (by omega) hnext rfl)
    · rw [List.drop_length]
      exact .finish

/-- **A listing goes through the code item by item.** -/
lemma listed_items (code : List Code) : Listed code 0 (items code) :=
  listed_itemsAfter (Nat.zero_le _)

/-- **No byte is left out, and none is covered twice.** -/
lemma covered_of_listed {items : List (Item × ℕ)} (h : Listed code pc items) :
    pc ≤ code.length ∧ covered pc items = List.range' pc (code.length - pc) := by
  induction h with
  | finish => simp [covered]
  | @item pc next item items hat _ ih =>
      obtain ⟨hpc, hnext⟩ := Item.next_of_at? hat
      refine ⟨by omega, ?_⟩
      rw [covered, ih.2]
      have hsplit := List.range'_append_1 (s := pc) (m := next - pc) (n := code.length - next)
      rw [show pc + (next - pc) = next by omega, show next - pc + (code.length - next)
        = code.length - pc by omega]
        at hsplit
      exact hsplit

end Code

/-! ## Execution -/

namespace Machine

variable {m m1 m' : Machine} {code : List Code} {pc next : ℕ} {item : Item} {act : Act Unit}
    {what : Fault}

/-- The machine is about to execute at position `pc` of some code. -/
structure Facing (m : Machine) (code : List Code) (pc : ℕ) : Prop where
  code : (m.engine.dict.get? m.engine.fn).map (·.code) = some code
  counter : m.engine.pc + 1 = pc

lemma Facing.byte (h : Facing m code pc) (k : ℕ) :
    (m.engine.dict.get? m.engine.fn).bind (codeAt? · (m.engine.pc + 1 + k))
      = (code.drop pc)[k]? := by
  obtain ⟨f, hget, rfl⟩ := Option.map_eq_some_iff.mp h.code
  rw [hget, h.counter, Option.bind_some, List.getElem?_drop]
  rfl

/-- What an opcode with an operand does once the operand has been fetched. -/
def operate (op : Opcode) (arg : Code) : Act Unit :=
  match op with
  | .call => call (Code.callee arg)
  | .jump => modifyEngine fun e => { e with pc := e.pc + arg.toInt - 1 }
  | .push => push arg.toInt32
  | op => execute op

lemma execute_of_operand {op : Opcode} (h : op.hasOperand = true) :
    execute op = fetch >>= operate op := by
  cases op <;> first | rfl | cases h

/-- The engine with its counter on the last byte before `next`. -/
def upTo (next : ℕ) (e : Engine) : Engine := { e with pc := next - 1 }

/-- **What executing an item comes to.**  Once all its bytes have been fetched, the counter is on
the last of them, and what is done then does not look at the code. -/
inductive Executing (m : Machine) (next : ℕ) : Item → Prop where
  | unknown {byte : Code} {m' : Machine} (hm' : Becomes m (upTo next m.engine) m')
      (hstep : step m = .error (.fault (.badOpcode byte (next - 1))) m') :
      Executing m next (.unknown byte)
  | lacking {op : Opcode} {m' : Machine} (hm' : Becomes m { m.engine with pc := wrapped next } m')
      (hstep : step m = .error (.fault (.outOfBounds m.engine.fn (wrapped next))) m') :
      Executing m next (.lacking op)
  | finish {m1 : Machine} (hm1 : Becomes m (upTo next m.engine) m1) (hstep : step m = ret m1) :
      Executing m next .finish
  | plain {op : Opcode} {m1 : Machine} (hop : op.hasOperand = false)
      (hm1 : Becomes m (upTo next m.engine) m1) (hstep : step m = execute op m1) :
      Executing m next (.plain op)
  | operand {op : Opcode} {arg : Code} {m1 : Machine} (hop : op.hasOperand = true)
      (hm1 : Becomes m (upTo next m.engine) m1) (hstep : step m = operate op arg m1) :
      Executing m next (.operand op arg)

section Fetching

/-- A byte that is no opcode. -/
lemma step_of_unknown {byte : Code}
    (h : (m.engine.dict.get? m.engine.fn).bind (codeAt? · (m.engine.pc + 1)) = some byte)
    (hbyte : Opcode.ofCode? byte = none) :
    ∃ m', Becomes m { m.engine with pc := m.engine.pc + 1 } m' ∧
      step m = .error (.fault (.badOpcode byte (m.engine.pc + 1))) m' := by
  set m1 : Machine := { m with engine := { m.engine with pc := m.engine.pc + 1 } } with hm1
  refine ⟨noted (utf8 "exec") (fun m =>
    m.engine.dict.nameOf m.engine.fn ++ utf8 "@" ++ Text.ofInt m.engine.pc ++ utf8 " " ++
      byte.name ++ utf8 " -- r:" ++ Text.ofNat m.engine.frames.length ++ utf8 " s:" ++
        m.stackText) m1, (becomes_engine m _).noted _ _, ?_⟩
  rw [step, bind_of_ok (fetch_of_byte h), bind_apply, note]
  simp only [hbyte]
  change EStateM.Result.error (Interrupt.fault (.badOpcode byte (noted _ _ m1).engine.pc)) _ = _
  rw [engine_noted]

lemma fetch_of_none
    (h : (m.engine.dict.get? m.engine.fn).bind (codeAt? · (m.engine.pc + 1)) = none) :
    fetch m = .error (.fault (.outOfBounds m.engine.fn (wrapped (m.engine.pc + 1))))
      { m with engine := { m.engine with pc := wrapped (m.engine.pc + 1) } } := by
  rw [fetch, get_bind]
  simp only [h]
  rfl

/-- The code ends where an operand is to be fetched. -/
lemma fetch_of_end {pc : ℤ} (hm1 : Becomes m { m.engine with pc := pc } m1)
    (h : (m.engine.dict.get? m.engine.fn).bind (codeAt? · (pc + 1)) = none) :
    ∃ m', Becomes m { m.engine with pc := wrapped (pc + 1) } m' ∧
      fetch m1 = .error (.fault (.outOfBounds m.engine.fn (wrapped (pc + 1)))) m' := by
  have hfetch := fetch_of_none (m := m1) (by rw [hm1.engine]; exact h)
  refine ⟨{ m1 with engine := { m1.engine with pc := wrapped (m1.engine.pc + 1) } },
    ⟨by rw [hm1.engine], hm1.input, hm1.console⟩, ?_⟩
  rw [hfetch, hm1.engine]

end Fetching

/-- **The step lemma.**  The machine takes the bytes of an instruction just where a listing does. -/
lemma executing (h : Facing m code pc) (hat : Item.at? code pc = some (item, next)) :
    Executing m next item := by
  obtain ⟨byte, rest, hdrop, hitem, rfl⟩ := Item.at?_eq_some hat
  have hfirst := h.byte 0
  have hsecond := h.byte 1
  rw [hdrop] at hfirst hsecond
  simp only [Int.natCast_zero, Int.add_zero, List.getElem?_cons_zero] at hfirst
  simp only [Int.natCast_one, List.getElem?_cons_succ] at hsecond
  -- the counter after one byte, and after two
  have hcounter := h.counter
  have hone : { m.engine with pc := m.engine.pc + 1 } = upTo (pc + 1) m.engine := by
    rw [upTo, show m.engine.pc + 1 = ((pc + 1 : ℕ) : ℤ) - 1 by omega]
  have htwo : { m.engine with pc := m.engine.pc + 1 + 1 } = upTo (pc + 2) m.engine := by
    rw [upTo, show m.engine.pc + 1 + 1 = ((pc + 2 : ℕ) : ℤ) - 1 by omega]
  have hdecoded := Item.decoded byte rest
  rw [← hitem] at hdecoded
  cases hdecoded with
  | unknown hbyte =>
      obtain ⟨m', hm', hstep⟩ := step_of_unknown hfirst hbyte
      rw [hone] at hm'
      refine .unknown hm' ?_
      rw [hstep, h.counter]
      push_cast
      rw [Item.width, Int.natCast_one, Int.add_sub_cancel]
  | lacking hbyte hop hrest =>
      rw [hbyte] at hfirst
      rw [hrest] at hsecond
      obtain ⟨m1, hm1, hstep⟩ := step_of_opcode hfirst
      obtain ⟨m', hm', hfetch⟩ := fetch_of_end hm1 hsecond
      rw [h.counter] at hm' hfetch
      exact .lacking hm' (by rw [hstep, execute_of_operand hop, bind_of_error hfetch]; rfl)
  | finish hbyte hrest =>
      rw [hbyte] at hfirst
      obtain ⟨m1, hm1, hstep⟩ := step_of_opcode hfirst
      exact .finish (hone ▸ hm1) hstep
  | plain hbyte hop =>
      rw [hbyte] at hfirst
      obtain ⟨m1, hm1, hstep⟩ := step_of_opcode hfirst
      exact .plain hop (hone ▸ hm1) hstep
  | operand hbyte hop hrest =>
      rw [hbyte] at hfirst
      rw [hrest] at hsecond
      obtain ⟨m1, hm1, hstep⟩ := step_of_opcode hfirst
      obtain ⟨m2, hm2, hfetch⟩ := fetch_operand hm1 hsecond
      exact .operand hop (htwo ▸ hm2) (by rw [hstep, execute_of_operand hop, bind_of_ok hfetch])

/-! ## Faults of decoding -/

lemma not_ofDecoding_of_plain {op : Opcode} (hop : op.hasOperand = false)
    (h : execute op m = .error (.fault what) m') : ¬ what.OfDecoding := by
  cases op with
  | prompt => exact restrained_prompt.not_ofDecoding h
  | read => exact not_ofDecoding_of_readQuietly h
  | ret => exact restrained_ret.not_ofDecoding h
  | call => cases hop
  | jump => cases hop
  | push => cases hop

lemma not_ofDecoding_of_operate {op : Opcode} {arg : Code} (hop : op.hasOperand = true)
    (h : operate op arg m = .error (.fault what) m') : ¬ what.OfDecoding := by
  cases op with
  | call => exact (restrained_call _).not_ofDecoding h
  | jump => cases h
  | push => cases h
  | prompt => cases hop
  | read => cases hop
  | ret => cases hop

/-- **A fault of decoding comes from an item that cannot be decoded**, and is the one that belongs
to it. -/
lemma Executing.fault_cases (h : Executing m next item) (hstep : step m = .error (.fault what) m')
    (hwhat : what.OfDecoding) :
    (∃ byte, item = .unknown byte ∧ what = .badOpcode byte (next - 1)) ∨
      ∃ op, item = .lacking op ∧ what = .outOfBounds m.engine.fn (wrapped next) := by
  cases h with
  | @unknown byte _ _ hunknown =>
      rw [hunknown] at hstep
      cases hstep
      exact Or.inl ⟨byte, rfl, rfl⟩
  | @lacking op _ _ hlacking =>
      rw [hlacking] at hstep
      cases hstep
      exact Or.inr ⟨op, rfl, rfl⟩
  | finish _ hret => exact absurd hwhat (restrained_ret.not_ofDecoding (hret.symm.trans hstep))
  | plain hop _ hplain => exact absurd hwhat (not_ofDecoding_of_plain hop (hplain.symm.trans hstep))
  | operand hop _ hoperate =>
      exact absurd hwhat (not_ofDecoding_of_operate hop (hoperate.symm.trans hstep))

/-! ## Where control goes -/

/-- A native runs to its end at once. -/
lemma restrained_call_native {id : FuncId} {f : Function} (hget : m.engine.dict.get? id = some f)
    (hnative : f.isNative = true) : standing (Result.machine (call id m)) = standing m := by
  have hcode : f.code = [] := List.isEmpty_iff.mp hnative
  cases hn : f.native with
  | none => rw [call_empty hget hcode hn]; rfl
  | some n =>
      rw [call_native hget hcode hn]
      exact (restrained_native n).machine m

/-- A position of code is not changed by keeping it in 64 bits, as long as no code is longer than
they count. -/
lemma wrapped_of_lt (h : next < Nat.pow 2 63) : wrapped next = next := by
  have hpow : Nat.pow 2 64 = 18446744073709551616 := rfl
  have hhalf : Nat.pow 2 63 = 9223372036854775808 := rfl
  rw [wrapped, hpow]
  exact Int.bmod_eq_of_le (by omega) (by omega)

/-- What the next step has to do with the item at `pc` that ends before `next`. -/
structure Agrees (m : Machine) (pc : ℕ) (item : Item) (next : ℕ) : Prop where
  /-- A byte is refused as an opcode if the listing does not know it either, and only then. -/
  unknown : (∃ byte place m', step m = .error (.fault (.badOpcode byte place)) m') ↔
    ∃ byte, item = .unknown byte
  unknown_fault : ∀ byte, item = .unknown byte →
    ∃ m', step m = .error (.fault (.badOpcode byte pc)) m'
  /-- The counter leaves the code if the listing lacks an operand, and only then. -/
  lacking : (∃ fn place m', step m = .error (.fault (.outOfBounds fn place)) m') ↔
    ∃ op, item = .lacking op
  lacking_fault : ∀ op, item = .lacking op →
    ∃ m', step m = .error (.fault (.outOfBounds m.engine.fn (wrapped (pc + 1)))) m'
  /-- Otherwise the bytes before `next` are taken, and no others. -/
  executing : Executing m next item
  push : ∀ n, item = .operand .push n →
    ∃ m', step m = .ok () m' ∧ m'.engine.pc + 1 = next ∧
    m'.engine.stack = n.toInt32 :: m.engine.stack
  jump : ∀ k, item = .operand .jump k → ∃ m', step m = .ok () m' ∧
    m'.engine.pc + 1 = next - 1 + k.toInt
  /-- A native may end in any way. -/
  native : ∀ c f, item = .operand .call c → m.engine.dict.get? (Code.callee c) = some f →
    f.isNative = true →
    (Result.machine (step m)).engine.pc + 1 = next ∧
    (Result.machine (step m)).engine.fn = m.engine.fn ∧
      (Result.machine (step m)).engine.frames = m.engine.frames
  interpreted : ∀ c f, item = .operand .call c → m.engine.dict.get? (Code.callee c) = some f →
    f.isNative = false → ¬ m.engine.Full → ∃ m' frame, step m = .ok () m' ∧
    m'.engine.fn = Code.callee c ∧
      m'.engine.frames = frame :: m.engine.frames ∧ frame.fn = m.engine.fn ∧ frame.pc + 1 = next
  full : ∀ c f, item = .operand .call c → m.engine.dict.get? (Code.callee c) = some f →
    f.isNative = false → m.engine.Full →
      ∃ m', step m = .error (.fault .returnOverflow) m' ∧ m'.engine = upTo next m.engine
  undefined : ∀ c, item = .operand .call c → m.engine.dict.get? (Code.callee c) = none →
    ∃ m', step m = .error (.fault (.undefinedCall (Code.callee c))) m' ∧
    m'.engine = upTo next m.engine

lemma Executing.of_operand {op : Opcode} {arg : Code} (h : Executing m next (.operand op arg)) :
    ∃ m1, Becomes m (upTo next m.engine) m1 ∧ step m = operate op arg m1 := by
  cases h with
  | operand _ hm1 hstep => exact ⟨_, hm1, hstep⟩

lemma call_undefined {id : FuncId} (hget : m.engine.dict.get? id = none) :
    call id m = .error (.fault (.undefinedCall id)) m := by
  rw [call, get_bind]
  simp only [hget]
  rfl

/-- **The machine agrees with the listing.** -/
lemma agrees (h : Facing m code pc) (hat : Item.at? code pc = some (item, next)) :
    Agrees m pc item next := by
  have hexec := executing h hat
  obtain ⟨-, -, -, -, hnext⟩ := Item.at?_eq_some hat
  constructor
  case executing => exact hexec
  case unknown =>
    constructor
    · rintro ⟨byte, place, m', hstep⟩
      rcases hexec.fault_cases hstep trivial with ⟨byte', rfl, -⟩ | ⟨op, -, hwhat⟩
      · exact ⟨byte', rfl⟩
      · cases hwhat
    · rintro ⟨byte, rfl⟩
      cases hexec with
      | unknown _ hstep => exact ⟨_, _, _, hstep⟩
  case unknown_fault =>
    rintro byte rfl
    cases hexec with
    | unknown _ hstep =>
        rw [hnext, Item.width] at hstep
        exact ⟨_, by simpa using hstep⟩
  case lacking =>
    constructor
    · rintro ⟨fn, place, m', hstep⟩
      rcases hexec.fault_cases hstep trivial with ⟨byte, -, hwhat⟩ | ⟨op, rfl, -⟩
      · cases hwhat
      · exact ⟨op, rfl⟩
    · rintro ⟨op, rfl⟩
      cases hexec with
      | lacking _ hstep => exact ⟨_, _, _, hstep⟩
  case lacking_fault =>
    rintro op rfl
    cases hexec with
    | lacking _ hstep =>
        rw [hnext, Item.width] at hstep
        exact ⟨_, hstep⟩
  case push =>
    rintro n rfl
    obtain ⟨m1, hm1, hstep⟩ := hexec.of_operand
    exact ⟨_, hstep, by simp [hm1.engine, upTo], by simp [hm1.engine, upTo]⟩
  case jump =>
    rintro k rfl
    obtain ⟨m1, hm1, hstep⟩ := hexec.of_operand
    exact ⟨_, hstep, by simp [hm1.engine, upTo]⟩
  case native =>
    rintro c f rfl hget hnative
    obtain ⟨m1, hm1, hstep⟩ := hexec.of_operand
    have hget1 : m1.engine.dict.get? (Code.callee c) = some f := by rw [hm1.engine]; exact hget
    obtain ⟨hcontrol, -⟩ := Prod.ext_iff.mp (restrained_call_native hget1 hnative)
    simp only [standing, hm1.engine] at hcontrol
    injection hcontrol with hfn hpc hframes
    rw [hstep]
    exact ⟨by rw [operate, hpc]; simp [upTo], hfn, hframes⟩
  case interpreted =>
    rintro c f rfl hget hcode hfull
    obtain ⟨m1, hm1, hstep⟩ := hexec.of_operand
    have hget1 : m1.engine.dict.get? (Code.callee c) = some f := by rw [hm1.engine]; exact hget
    obtain ⟨m', hm', hcall⟩ := call_interpreted hget1 hcode (by rw [hm1.engine]; exact hfull)
    rw [hm1.engine] at hm'
    refine ⟨m', ⟨m.engine.fn, next - 1⟩, hstep.trans hcall, ?_, ?_, rfl, by simp⟩
    · rw [hm'.engine]; rfl
    · rw [hm'.engine]; rfl
  case full =>
    rintro c f rfl hget hcode hfull
    obtain ⟨m1, hm1, hstep⟩ := hexec.of_operand
    have hget1 : m1.engine.dict.get? (Code.callee c) = some f := by rw [hm1.engine]; exact hget
    exact ⟨m1, hstep.trans (call_interpreted_full hget1 hcode (by rw [hm1.engine]; exact hfull)),
      hm1.engine⟩
  case undefined =>
    rintro c rfl hget
    obtain ⟨m1, hm1, hstep⟩ := hexec.of_operand
    exact ⟨m1, hstep.trans (call_undefined (by rw [hm1.engine]; exact hget)), hm1.engine⟩

/-- **Listings and execution divide code in the same way.**  Every position of any code has an item,
which ends behind it and within the code; from the first byte on, the items of a listing follow one
another to the very end, so that they cover every byte once; and a machine that is about to execute
at a position takes exactly the bytes of the item there. -/
theorem listing_agrees_with_execution (code : List Code) :
    Code.Listed code 0 (Code.items code) ∧
      Code.covered 0 (Code.items code) = List.range code.length ∧
      ∀ pc < code.length, ∃ item next, Item.at? code pc = some (item, next) ∧
        pc < next ∧ next ≤ code.length ∧ (code.length < Nat.pow 2 63 → wrapped next = next) ∧
        ∀ m, Facing m code pc → Agrees m pc item next := by
  have hlisted := Code.listed_items code
  refine ⟨hlisted, ?_, fun pc hpc => ?_⟩
  · rw [(Code.covered_of_listed hlisted).2, List.range_eq_range', Nat.sub_zero]
  · obtain ⟨item, next, hat⟩ := Item.exists_at? hpc
    obtain ⟨hlow, hhigh⟩ := Item.next_of_at? hat
    exact ⟨item, next, hat, hlow, hhigh,
      fun hlength => wrapped_of_lt (Nat.lt_of_le_of_lt hhigh hlength), fun m hm => agrees hm hat⟩

/-- Code that holds a literal, a byte that is no opcode, and a call cut off by the end. -/
theorem listing_agrees_with_execution_of_truncated :
    let m : Machine :=
      { engine := { dict := ⟨[{ name := utf8 "x", code := [3, -1, 9, 0] }]⟩, fn := 0, pc := 2 } }
    Facing m [3, -1, 9, 0] 3 ∧ Agrees m 3 (.lacking .call) 4 ∧
      (Code.items [3, -1, 9, 0]).map (·.2) = [2, 3, 4] ∧
      ∃ m', step m = .error (.fault (.outOfBounds 0 4)) m' := by
  intro m
  have hfacing : Facing m [3, -1, 9, 0] 3 := ⟨rfl, rfl⟩
  obtain ⟨-, -, hpositions⟩ := listing_agrees_with_execution [3, -1, 9, 0]
  obtain ⟨item, next, hat, -, -, -, hagrees⟩ := hpositions 3 (by decide)
  cases hat
  exact ⟨hfacing, hagrees m hfacing, rfl, (hagrees m hfacing).lacking_fault .call rfl⟩

end Machine

end ColonMachine
