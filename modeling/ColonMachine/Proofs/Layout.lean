import ColonMachine.Machine.Settings
import ColonMachine.Proofs.Effects
import Mathlib.Data.Int.Notation

/-!
# How compiled code is laid out

The compiler emits two instructions only: a call and a literal, each of two bytes.  The code of a
finished word is a list of such instructions, its **body**, followed by one return, so where an
instruction begins can be told from how many stand before it.

* `Instr.assemble` gives the bytes of a body; `items_assemble` says that a listing of them shows
  the same instructions.
* `Dictionary.Finished` says that an id names a finished word with a given body, and `Spot` that
  a counter stands between two instructions of it.
* From there, one step executes exactly the next instruction (`step_call`, `step_push`,
  `step_return`); the top level loop has two instructions of its own (`step_prompt`,
  `step_jump`).
-/

namespace ColonMachine

/-! ## The dictionary -/

namespace Dictionary

variable {d : Dictionary} {id target : FuncId} {f : Function}

lemma bounds_of_get? (h : d.get? id = some f) : 0 ≤ id ∧ id < d.size := by
  cases id with
  | ofNat i =>
      have hi : i < d.functions.length := (List.getElem?_eq_some_iff.mp h).1
      exact ⟨Int.natCast_nonneg i, Int.ofNat_lt.mpr hi⟩
  | negSucc i => cases h

lemma exists_get? (hlow : 0 ≤ id) (hhigh : id < d.size) : ∃ f, d.get? id = some f := by
  obtain ⟨i, rfl⟩ := Int.eq_ofNat_of_zero_le hlow
  exact ⟨_, List.getElem?_eq_getElem (Int.ofNat_lt.mp hhigh)⟩

@[simp] lemma size_add (d : Dictionary) (name : Text) : (d.add name).size = d.size + 1 := by
  simp [size, add, push]

lemma get?_add (d : Dictionary) (name : Text) (id : FuncId) :
    (d.add name).get? id = if id = d.nextId then some { name } else d.get? id := by
  cases id with
  | ofNat i =>
      have hiff : Int.ofNat i = d.nextId ↔ i = d.functions.length := Int.ofNat_inj
      simp only [hiff, get?, add, push]
      rcases Nat.lt_trichotomy i d.functions.length with hi | rfl | hi
      · rw [List.getElem?_append_left hi, if_neg (by omega)]
      · simp
      · rw [List.getElem?_eq_none (by simp; omega), List.getElem?_eq_none (by omega),
          if_neg (by omega)]
  | negSucc i => rfl

@[simp] lemma size_emit (d : Dictionary) (target : FuncId) (code : List Code) :
    (d.emit target code).size = d.size := by
  cases target <;> simp [size, emit, modify]

lemma get?_emit (d : Dictionary) (target : FuncId) (code : List Code) (id : FuncId) :
    (d.emit target code).get? id
      = if id = target then (d.get? id).map (·.emit code) else d.get? id := by
  cases target with
  | negSucc j =>
      split_ifs with h
      · subst h; rfl
      · rfl
  | ofNat j =>
      cases id with
      | negSucc i => rw [if_neg (by simp)]; rfl
      | ofNat i =>
          have hiff : Int.ofNat i = Int.ofNat j ↔ j = i := Int.ofNat_inj.trans eq_comm
          simp only [hiff, get?, emit, modify, List.getElem?_modify]
          split_ifs <;> simp

lemma get?_of_find? {name : Text} (h : d.find? name = some id) :
    ∃ f, d.get? id = some f ∧ f.name = name := by
  obtain ⟨i, hi, rfl⟩ := Option.map_eq_some_iff.mp h
  obtain ⟨hlt, hname, -⟩ := List.findIdx?_eq_some_iff_getElem.mp hi
  exact ⟨_, List.getElem?_eq_getElem hlt, by simpa using hname⟩

@[simp] lemma names_emit (d : Dictionary) (target : FuncId) (code : List Code) :
    (d.emit target code).functions.map (·.name) = d.functions.map (·.name) := by
  cases target with
  | negSucc j => rfl
  | ofNat j =>
      refine List.ext_getElem? fun i => ?_
      simp only [emit, modify, List.getElem?_map, List.getElem?_modify]
      split_ifs with h
      · cases d.functions[i]? <;> rfl
      · simp

@[simp] lemma find?_emit (d : Dictionary) (target : FuncId) (code : List Code) (name : Text) :
    (d.emit target code).find? name = d.find? name := by
  have hmap : ∀ fs : List Function,
      fs.findIdx? (fun f => f.name == name) = (fs.map (·.name)).findIdx? (· == name) := by
    intro fs
    rw [List.findIdx?_map]
    rfl
  rw [find?, find?, hmap, hmap, names_emit]

lemma name_ne_of_find? {name : Text} (h : d.find? name = none) :
    name ∉ d.functions.map (·.name) := by
  have hall := List.findIdx?_eq_none_iff.mp (Option.map_eq_none_iff.mp h)
  intro hmem
  obtain ⟨f, hf, hname⟩ := List.mem_map.mp hmem
  simpa [hname] using hall f hf

lemma find?_name (hnames : (d.functions.map (·.name)).Nodup) (hget : d.get? id = some f) :
    d.find? f.name = some id := by
  obtain ⟨i, rfl⟩ := Int.eq_ofNat_of_zero_le (bounds_of_get? hget).1
  obtain ⟨hi, hf⟩ := List.getElem?_eq_some_iff.mp hget
  refine Option.map_eq_some_iff.mpr ⟨i, List.findIdx?_eq_some_iff_getElem.mpr ⟨hi, ?_, ?_⟩, rfl⟩
  · rw [hf, beq_self_eq_true]
  · intro j hji hj
    have hne := List.pairwise_iff_getElem.mp hnames j i (by simp; omega) (by simpa using hi) hji
    simp only [List.getElem_map, hf] at hne
    exact hne (by simpa using hj)

lemma nodup_add {name : Text} (hnames : (d.functions.map (·.name)).Nodup)
    (hnew : d.find? name = none) : ((d.add name).functions.map (·.name)).Nodup := by
  simp only [add, push, List.map_append, List.map_cons, List.map_nil]
  rw [List.nodup_append]
  refine ⟨hnames, by simp, ?_⟩
  rintro a ha b hb rfl
  rw [List.mem_singleton] at hb
  subst hb
  exact name_ne_of_find? hnew ha

end Dictionary

/-! ## Instructions and bodies -/

/-- An instruction that the compiler emits. -/
inductive Instr where
  | call (callee : Code)
  | push (n : Code)
  deriving DecidableEq

namespace Instr

def bytes : Instr → List Code
  | call callee => [Opcode.call.code, callee]
  | push n => [Opcode.push.code, n]

/-- An instruction as a listing shows it. -/
def item : Instr → Item
  | call callee => .operand .call callee
  | push n => .operand .push n

def assemble (body : List Instr) : List Code := body.flatMap bytes

@[simp] lemma length_bytes (i : Instr) : i.bytes.length = 2 := by cases i <;> rfl

@[simp] lemma assemble_nil : assemble [] = [] := rfl

lemma assemble_cons (i : Instr) (body : List Instr) :
    assemble (i :: body) = i.bytes ++ assemble body := rfl

@[simp] lemma assemble_append (front back : List Instr) :
    assemble (front ++ back) = assemble front ++ assemble back := List.flatMap_append

@[simp] lemma length_assemble (body : List Instr) : (assemble body).length = 2 * body.length := by
  induction body with
  | nil => rfl
  | cons i body ih =>
      rw [assemble_cons, List.length_append, ih, length_bytes, List.length_cons]
      omega

lemma assemble_injective {body body' : List Instr} (h : assemble body = assemble body') :
    body = body' := by
  induction body generalizing body' with
  | nil =>
      have := congrArg List.length h
      simp only [assemble_nil, List.length_nil, length_assemble] at this
      exact (List.length_eq_zero_iff.mp (by omega)).symm
  | cons i body ih =>
      rcases body' with _ | ⟨j, body'⟩
      · have := congrArg List.length h
        simp only [assemble_nil, List.length_nil, length_assemble, List.length_cons] at this
        omega
      · obtain ⟨hbytes, hrest⟩ := List.append_inj h (by simp)
        have hij : i = j := by
          cases i <;> cases j <;> simp_all [bytes, Opcode.code]
        rw [hij, ih hrest]

/-- A listing shows a body, and then what follows it. -/
lemma itemsAfter_assemble_append (body : List Instr) (rest : List Code) (pc : ℕ) :
    (Code.itemsAfter 0 pc (assemble body ++ rest)).map (·.1)
      = body.map item ++ (Code.itemsAfter 0 (pc + 2 * body.length) rest).map (·.1) := by
  induction body generalizing pc with
  | nil => simp
  | cons i body ih =>
      have h := ih (pc + 2)
      rw [show pc + 2 + 2 * body.length = pc + 2 * (body.length + 1) by omega] at h
      cases i <;>
        simpa [assemble_cons, bytes, Code.itemsAfter, Item.decode, Opcode.hasOperand, Item.width,
          item] using h

/-- A listing of a finished word shows its body, and then its end. -/
lemma items_assemble (body : List Instr) :
    (Code.items (assemble body ++ [Opcode.ret.code])).map (·.1) = body.map item ++ [.finish] :=
  itemsAfter_assemble_append body [Opcode.ret.code] 0

end Instr

/-! ## Finished words -/

/-- The id of the first function that is not born with the machine. -/
def firstUserId : FuncId := 16

/-- The function `id` is a finished word with the given body. -/
def Dictionary.Finished (d : Dictionary) (id : FuncId) (body : List Instr) : Prop :=
  firstUserId ≤ id ∧ ∃ f, d.get? id = some f ∧
    f.code = Instr.assemble body ++ [Opcode.ret.code]

namespace Dictionary.Finished

variable {d : Dictionary} {id target : FuncId} {body : List Instr}

lemma get? (h : d.Finished id body) :
    ∃ f, d.get? id = some f ∧ f.code = Instr.assemble body ++ [Opcode.ret.code] := h.2

lemma ne_boot (h : d.Finished id body) : id ≠ bootId := by
  rintro rfl
  exact absurd h.1 (by decide)

lemma add (h : d.Finished id body) (name : Text) : (d.add name).Finished id body := by
  obtain ⟨hid, f, hget, hcode⟩ := h
  refine ⟨hid, f, ?_, hcode⟩
  rw [get?_add, if_neg, hget]
  rintro rfl
  exact Int.lt_irrefl _ (bounds_of_get? hget).2

lemma emit (h : d.Finished id body) (htarget : id ≠ target) (code : List Code) :
    (d.emit target code).Finished id body := by
  obtain ⟨hid, f, hget, hcode⟩ := h
  exact ⟨hid, f, by rw [get?_emit, if_neg htarget, hget], hcode⟩

end Dictionary.Finished

/-- In the finished word `id`, the counter stands between the instructions `past` and `rest`. -/
structure Spot (d : Dictionary) (id : FuncId) (pc : ℤ) (past rest : List Instr) : Prop where
  finished : d.Finished id (past ++ rest)
  /-- The counter is on the last byte of the instructions before. -/
  counter : pc = 2 * (past.length : ℤ) - 1

namespace Spot

variable {d d' : Dictionary} {id : FuncId} {pc : ℤ} {past rest : List Instr} {i : Instr}

lemma byte (h : Spot d id pc past rest) (k : ℕ) :
    (d.get? id).bind (Machine.codeAt? · (pc + 1 + k))
      = (Instr.assemble rest ++ [Opcode.ret.code])[k]? := by
  obtain ⟨⟨-, f, hget, hcode⟩, hpc⟩ := h
  have hpos : pc + 1 + k = ((2 * past.length + k : ℕ) : ℤ) := by omega
  rw [hget, Option.bind_some, hpos]
  change f.code[2 * past.length + k]? = _
  rw [hcode, Instr.assemble_append, List.append_assoc,
    List.getElem?_append_right (by rw [Instr.length_assemble]; omega), Instr.length_assemble]
  congr 1
  omega

lemma next (h : Spot d id pc past (i :: rest)) : Spot d id (pc + 2) (past ++ [i]) rest where
  finished := by simpa using h.finished
  counter := by
    have := h.counter
    simp only [List.length_append, List.length_singleton]
    omega

lemma start {body : List Instr} (h : d.Finished id body) : Spot d id (-1) [] body :=
  ⟨h, rfl⟩

lemma mono (h : Spot d id pc past rest)
    (hd : ∀ body, d.Finished id body → d'.Finished id body) : Spot d' id pc past rest :=
  ⟨hd _ h.finished, h.counter⟩

end Spot

/-! ## One step -/

/-- Where an engine stands in the code, and how it came there. -/
structure Control where
  fn : FuncId
  pc : ℤ
  frames : List Frame
  deriving DecidableEq

namespace Engine

def control (e : Engine) : Control := ⟨e.fn, e.pc, e.frames⟩

/-- The return stack has reached its limit. -/
def Full (e : Engine) : Prop := 0 < e.limit ∧ e.limit ≤ e.frames.length

/-- The engine after the word `id` was entered. -/
def entered (e : Engine) (id : FuncId) : Engine :=
  { e with frames := ⟨e.fn, e.pc⟩ :: e.frames, fn := id, pc := -1 }

end Engine

namespace Machine

variable {m : Machine} {past rest : List Instr}

lemma fetch_of_byte {code : Code}
    (h : (m.engine.dict.get? m.engine.fn).bind (codeAt? · (m.engine.pc + 1)) = some code) :
    fetch m = .ok code { m with engine := { m.engine with pc := m.engine.pc + 1 } } := by
  rw [fetch, get_bind]
  simp only [h]
  rfl

/-- A step fetches an opcode and executes it. -/
lemma step_of_opcode {op : Opcode}
    (h : (m.engine.dict.get? m.engine.fn).bind (codeAt? · (m.engine.pc + 1)) = some op.code) :
    ∃ m', Becomes m { m.engine with pc := m.engine.pc + 1 } m' ∧ step m = execute op m' := by
  set m1 : Machine := { m with engine := { m.engine with pc := m.engine.pc + 1 } } with hm1
  refine ⟨noted (utf8 "exec") (fun m =>
    m.engine.dict.nameOf m.engine.fn ++ utf8 "@" ++ Text.ofInt m.engine.pc ++ utf8 " " ++
      op.code.name ++ utf8 " -- r:" ++ Text.ofNat m.engine.frames.length ++ utf8 " s:" ++
        m.stackText) m1, (becomes_engine m _).noted _ _, ?_⟩
  rw [step, bind_of_ok (fetch_of_byte h), bind_apply, note]
  simp only [Opcode.ofCode?_code]
  rfl

lemma fetch_operand {pc : ℤ} {m1 : Machine} {operand : Code}
    (hm1 : Becomes m { m.engine with pc := pc } m1)
    (h : (m.engine.dict.get? m.engine.fn).bind (codeAt? · (pc + 1)) = some operand) :
    ∃ m2, Becomes m { m.engine with pc := pc + 1 } m2 ∧ fetch m1 = .ok operand m2 := by
  refine ⟨_, ?_, fetch_of_byte (by rw [hm1.engine]; exact h)⟩
  exact ⟨by rw [hm1.engine], hm1.input, hm1.console⟩

lemma step_call {callee : Code}
    (h : Spot m.engine.dict m.engine.fn m.engine.pc past (.call callee :: rest)) :
    ∃ m', Becomes m { m.engine with pc := m.engine.pc + 2 } m' ∧
      step m = call (Code.callee callee) m' := by
  have hop := h.byte 0
  have harg := h.byte 1
  simp only [Instr.assemble_cons, Instr.bytes, List.cons_append, List.nil_append,
    List.getElem?_cons_zero, List.getElem?_cons_succ, Int.natCast_zero, Int.add_zero] at hop harg
  obtain ⟨m1, hm1, hstep⟩ := step_of_opcode hop
  obtain ⟨m2, hm2, hfetch⟩ := fetch_operand hm1 harg
  exact ⟨m2, by simpa [Int.add_assoc] using hm2, by rw [hstep, execute, bind_of_ok hfetch]⟩

lemma step_push {n : Code}
    (h : Spot m.engine.dict m.engine.fn m.engine.pc past (.push n :: rest)) :
    ∃ m', Becomes m { m.engine with
      pc := m.engine.pc + 2, stack := n.toInt32 :: m.engine.stack } m' ∧ step m = .ok () m' := by
  have hop := h.byte 0
  have harg := h.byte 1
  simp only [Instr.assemble_cons, Instr.bytes, List.cons_append, List.nil_append,
    List.getElem?_cons_zero, List.getElem?_cons_succ, Int.natCast_zero, Int.add_zero] at hop harg
  obtain ⟨m1, hm1, hstep⟩ := step_of_opcode hop
  obtain ⟨m2, hm2, hfetch⟩ := fetch_operand hm1 harg
  refine ⟨{ m2 with engine := { m2.engine with stack := n.toInt32 :: m2.engine.stack } },
    ⟨?_, hm2.input, hm2.console⟩, ?_⟩
  · rw [hm2.engine, Int.add_assoc]
    rfl
  · rw [hstep, execute, bind_of_ok hfetch]
    rfl

/-! ## Calls and returns -/

variable {id : FuncId} {f : Function}

lemma call_native {n : Native} (hget : m.engine.dict.get? id = some f) (hcode : f.code = [])
    (hnative : f.native = some n) : call id m = native n m := by
  rw [call, get_bind]
  simp only [hget, Function.isNative, hcode, hnative]
  rfl

lemma call_primitive {p : Primitive} (hget : m.engine.dict.get? id = some f) (hcode : f.code = [])
    (hnative : f.native = some (.primitive p)) : call id m = primitive p m :=
  call_native hget hcode hnative

lemma call_empty (hget : m.engine.dict.get? id = some f) (hcode : f.code = [])
    (hnative : f.native = none) : call id m = .ok () m := by
  rw [call, get_bind]
  simp only [hget, Function.isNative, hcode, hnative]
  rfl

lemma call_interpreted_full (hget : m.engine.dict.get? id = some f) (hcode : f.isNative = false)
    (hfull : m.engine.Full) : call id m = .error (.fault .returnOverflow) m := by
  rw [call, get_bind]
  simp only [hget, hcode]
  rw [if_neg (by simp)]
  refine bind_of_error ?_
  rw [pushFrame, get_bind]
  have hcheck : (decide (0 < m.engine.limit) && decide (m.engine.limit ≤ m.engine.frames.length))
      = true := by
    simpa [Engine.Full] using hfull
  simp only [hcheck, if_true]
  rfl

/-- Calling a function with code otherwise: it is entered, and the caller is remembered. -/
lemma call_interpreted (hget : m.engine.dict.get? id = some f) (hcode : f.isNative = false)
    (hfull : ¬ m.engine.Full) :
    ∃ m', Becomes m (m.engine.entered id) m' ∧ call id m = .ok () m' := by
  set m1 : Machine := { m with engine := { m.engine with
    frames := ⟨m.engine.fn, m.engine.pc⟩ :: m.engine.frames } } with hm1
  have hpush : pushFrame ⟨m.engine.fn, m.engine.pc⟩ m = .ok () m1 := by
    have hcheck : (decide (0 < m.engine.limit) && decide (m.engine.limit ≤ m.engine.frames.length))
        = false := by
      simpa [Engine.Full] using hfull
    rw [pushFrame, get_bind]
    simp only [hcheck]
    rfl
  set m2 := noted (utf8 "call") (fun _ => f.name) m1 with hm2
  refine ⟨{ m2 with engine := { m2.engine with fn := id, pc := -1 } }, ⟨?_, ?_, ?_⟩, ?_⟩
  · simp only [hm2, engine_noted]
    rfl
  · exact input_noted ..
  · exact console_noted ..
  · rw [call, get_bind]
    simp only [hget, hcode]
    rw [if_neg (by simp), bind_of_ok hpush]
    rfl

lemma call_full {body : List Instr} (hbody : m.engine.dict.Finished id body)
    (hfull : m.engine.Full) : call id m = .error (.fault .returnOverflow) m := by
  obtain ⟨-, f, hget, hcode⟩ := hbody
  exact call_interpreted_full hget (by simp [Function.isNative, hcode]) hfull

lemma call_word {body : List Instr} (hbody : m.engine.dict.Finished id body)
    (hfull : ¬ m.engine.Full) :
    ∃ m', Becomes m (m.engine.entered id) m' ∧ call id m = .ok () m' := by
  obtain ⟨-, f, hget, hcode⟩ := hbody
  exact call_interpreted hget (by simp [Function.isNative, hcode]) hfull

lemma ret_frame {frame : Frame} {frames : List Frame} (h : m.engine.frames = frame :: frames) :
    ∃ m', Becomes m { m.engine with fn := frame.fn, pc := frame.pc, frames } m' ∧
      ret m = .ok () m' := by
  set e : Engine := { m.engine with fn := frame.fn, pc := frame.pc, frames } with he
  have hpop : popFrame m = .ok frame { m with engine := { m.engine with frames } } := by
    rw [popFrame, get_bind]
    simp only [h]
    rfl
  rw [ret, bind_of_ok hpop]
  cases hget : m.engine.dict.get? frame.fn with
  | none =>
      refine ⟨{ m with engine := e }, becomes_engine m e, ?_⟩
      rw [bind_of_ok (show modifyEngine _ _ = .ok () { m with engine := e } from rfl), get_bind]
      simp only [he, hget]
      rfl
  | some f =>
      refine ⟨noted (utf8 "return") (fun _ => f.name) { m with engine := e },
        (becomes_engine m e).noted _ _, ?_⟩
      rw [bind_of_ok (show modifyEngine _ _ = .ok () { m with engine := e } from rfl), get_bind]
      simp only [he, hget]
      rfl

/-- At the end of a finished word, a step returns. -/
lemma step_return {frame : Frame} {frames : List Frame}
    (h : Spot m.engine.dict m.engine.fn m.engine.pc past [])
    (hframes : m.engine.frames = frame :: frames) :
    ∃ m', Becomes m { m.engine with fn := frame.fn, pc := frame.pc, frames } m' ∧
      step m = .ok () m' := by
  have hop := h.byte 0
  simp only [Instr.assemble_nil, List.nil_append, List.getElem?_cons_zero, Int.natCast_zero,
    Int.add_zero] at hop
  obtain ⟨m1, hm1, hstep⟩ := step_of_opcode hop
  have hm1frames : m1.engine.frames = frame :: frames := by rw [hm1.engine]; exact hframes
  obtain ⟨m2, hm2, hret⟩ := ret_frame hm1frames
  rw [hm1.engine] at hm2
  exact ⟨m2, ⟨hm2.engine, hm2.input.trans hm1.input, hm2.console.trans hm1.console⟩,
    hstep.trans hret⟩

/-! ## The top level loop -/

/-- In the prompt instruction of the top level loop. -/
def onPrompt : Control := ⟨bootId, 0, []⟩

/-- The function that holds the top level loop. -/
def bootFunction : Function := { name := Dictionary.bootName, code := Dictionary.bootCode }

/-- The machine stands in the top level loop, with the counter at `pc`. -/
structure AtBoot (m : Machine) (pc : ℤ) : Prop where
  function : m.engine.dict.get? bootId = some bootFunction
  fn : m.engine.fn = bootId
  counter : m.engine.pc = pc

/-- The first instruction of the top level loop prompts. -/
lemma step_prompt (h : AtBoot m (-1)) : ∃ m', Becomes m { m.engine with pc := 0 } m' ∧
    step m = prompt m' := by
  have hop : (m.engine.dict.get? m.engine.fn).bind (codeAt? · (m.engine.pc + 1))
      = some Opcode.prompt.code := by
    rw [h.fn, h.function, h.counter]
    rfl
  obtain ⟨m', hm', hstep⟩ := step_of_opcode hop
  rw [h.counter] at hm'
  exact ⟨m', hm', hstep⟩

/-- The second one goes back before the first. -/
lemma step_jump (h : AtBoot m 0) : ∃ m', Becomes m { m.engine with pc := -1 } m' ∧
    step m = .ok () m' := by
  have hop : (m.engine.dict.get? m.engine.fn).bind (codeAt? · (m.engine.pc + 1))
      = some Opcode.jump.code := by
    rw [h.fn, h.function, h.counter]
    rfl
  have harg : (m.engine.dict.get? m.engine.fn).bind (codeAt? · (m.engine.pc + 1 + 1))
      = some (-2) := by
    rw [h.fn, h.function, h.counter]
    rfl
  obtain ⟨m1, hm1, hstep⟩ := step_of_opcode hop
  obtain ⟨m2, hm2, hfetch⟩ := fetch_operand hm1 harg
  refine ⟨{ m2 with
    engine := { m2.engine with pc := m2.engine.pc + (-2 : Code).toInt - 1 } }, ?_, ?_⟩
  · refine ⟨?_, hm2.input, hm2.console⟩
    rw [hm2.engine, h.counter]
    rfl
  · rw [hstep, execute, bind_of_ok hfetch]
    rfl

end Machine

end ColonMachine
