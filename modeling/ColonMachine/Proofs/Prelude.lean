import ColonMachine.Proofs.Callers
import ColonMachine.Proofs.Compilation
import ColonMachine.Proofs.Teaching

/-!
# What the words of the prelude compute

Words that only work on the data stack can be evaluated without a machine (`Dictionary.applied`): a
primitive is an operation on the stack, and a finished word is its instructions, one after the
other.  How deep calls may be nested is a parameter of the evaluation, and the machine needs that
much room on its return stack (`Ready`).

If the evaluation gives a stack, the machine comes to it (`callsTo_of_applied`), and after the word
everything else is as it was.  The prelude is a text of definitions, so its dictionary can be
computed as well (`taught_prelude`), and with it what each of its words does to every data stack.
-/

namespace ColonMachine

/-! ## Evaluation -/

namespace Instr

/-- The instructions that code was assembled from, with a return behind them. -/
def disassemble : List Code → Option (List Instr)
  | [] => none
  | [code] => if code = Opcode.ret.code then some [] else none
  | code :: operand :: rest =>
    if code = Opcode.call.code then (disassemble rest).map (.call operand :: ·)
    else if code = Opcode.push.code then (disassemble rest).map (.push operand :: ·)
    else none

lemma assemble_of_disassemble {code : List Code} {body : List Instr}
    (h : disassemble code = some body) :
    code = assemble body ++ [Opcode.ret.code] := by
  induction code using disassemble.induct generalizing body with
  | case1 => cases h
  | case2 =>
      cases h
      rfl
  | case3 code hcode =>
      rw [disassemble, if_neg hcode] at h
      cases h
  | case4 operand rest ih =>
      obtain ⟨body', hbody', rfl⟩ := Option.map_eq_some_iff.mp h
      rw [ih hbody', assemble_cons]
      rfl
  | case5 operand rest _ ih =>
      obtain ⟨body', hbody', rfl⟩ := Option.map_eq_some_iff.mp h
      rw [ih hbody', assemble_cons]
      rfl
  | case6 code operand rest hcall hpush =>
      rw [disassemble, if_neg hcall, if_neg hpush] at h
      cases h

end Instr

namespace Dictionary

/-- What the function `id` does to the data stack, if it is a primitive that does nothing else. -/
def operation? (d : Dictionary) (id : FuncId) : Option (Stack → Except Fault Stack) := do
  let f ← d.get? id
  match f.code, f.native with
  | [], some (.primitive p) => p.onStack?
  | _, _ => none

/-- The body of the function `id`, if it is a finished word. -/
def body? (d : Dictionary) (id : FuncId) : Option (List Instr) := do
  let f ← d.get? id
  if firstUserId ≤ id then Instr.disassemble f.code else none

/-- Performs an instruction on the data stack. -/
def perform (apply : FuncId → Stack → Option Stack) (t : Stack) : Instr → Option Stack
  | .push n => some (n.toInt32 :: t)
  | .call c => apply (Code.callee c) t

/-- Applies the function `id` to the data stack, if it only works on that and calls are nested at
most `room` deep. -/
def applied (d : Dictionary) (room : ℕ) (id : FuncId) (t : Stack) : Option Stack :=
  match d.operation? id with
  | some f => (f t).toOption
  | none =>
    match room with
    | 0 => none
    | room + 1 => do (← d.body? id).foldlM (perform (d.applied room)) t

variable {d : Dictionary} {id : FuncId} {body : List Instr}

lemma finished_of_body? (h : d.body? id = some body) : d.Finished id body := by
  obtain ⟨f, hget, hbody⟩ := Option.bind_eq_some_iff.mp h
  split_ifs at hbody with hid
  exact ⟨hid, f, hget, Instr.assemble_of_disassemble hbody⟩

lemma exists_of_operation? {op : Stack → Except Fault Stack} (h : d.operation? id = some op) :
    ∃ f p, d.get? id = some f ∧ f.code = [] ∧ f.native = some (.primitive p) ∧
      p.onStack? = some op := by
  obtain ⟨f, hget, hop⟩ := Option.bind_eq_some_iff.mp h
  split at hop
  · exact ⟨f, _, hget, by assumption, by assumption, hop⟩
  · cases hop

lemma applied_eq_some {n : ℕ} {t t' : Stack} (h : d.applied n id t = some t') :
    (∃ op, d.operation? id = some op ∧ op t = .ok t') ∨
      ∃ k body, n = k + 1 ∧ d.body? id = some body ∧
      body.foldlM (perform (d.applied k)) t = some t' := by
  rw [applied.eq_def] at h
  cases hop : d.operation? id with
  | some op =>
      replace h : (op t).toOption = some t' := by
        rw [hop] at h
        exact h
      refine Or.inl ⟨op, rfl, ?_⟩
      cases hstack : op t with
      | ok t1 =>
          rw [hstack] at h
          cases h
          rfl
      | error what =>
          rw [hstack] at h
          cases h
  | none =>
      rw [hop] at h
      cases n with
      | zero => cases h
      | succ k =>
          obtain ⟨body, hbody, hstack⟩ := Option.bind_eq_some_iff.mp h
          exact Or.inr ⟨k, body, rfl, hbody, hstack⟩

end Dictionary

namespace Machine

variable {m m' m1 : Machine} {d : Dictionary} {t t' : Stack} {id : FuncId} {n : ℕ}
    {past rest body : List Instr}
  {apply : FuncId → Stack → Option Stack} {w : Text}

/-! ## Execution -/

/-- Within words, any number of instructions are executed without a fault. -/
def StepsTo : Machine → Machine → Prop :=
  Relation.ReflTransGen fun a b => a.engine.running = true ∧ a.engine.frames ≠ [] ∧
    step a = .ok () b

/-- The machine calls the function `id`, comes back, and only its data stack has changed. -/
def CallsTo (id : FuncId) (m : Machine) (t : Stack) : Prop :=
  ∃ m1 m', call id m = .ok () m1 ∧ StepsTo m1 m' ∧ Becomes m { m.engine with stack := t } m'

/-- The machine goes on, with the dictionary `d` and room for `n` more frames on its return
stack. -/
structure Ready (d : Dictionary) (n : ℕ) (m : Machine) : Prop where
  dict : m.engine.dict = d
  running : m.engine.running = true
  room : m.engine.limit ≤ 0 ∨ m.engine.frames.length + n ≤ m.engine.limit

namespace Ready

lemma becomes {pc : ℤ} (h : Ready d n m)
    (hm' : Becomes m { m.engine with pc := pc, stack := t } m') :
    Ready d n m' := by
  obtain ⟨hdict, hrunning, hroom⟩ := h
  refine ⟨?_, ?_, ?_⟩ <;> rw [hm'.engine] <;> assumption

lemma not_full (h : Ready d (n + 1) m) : ¬ m.engine.Full := by
  rintro ⟨hpos, hfull⟩
  have := h.room
  push_cast at this
  omega

lemma entered (h : Ready d (n + 1) m) (hm' : Becomes m (m.engine.entered id) m') :
    Ready d n m' := by
  obtain ⟨hdict, hrunning, hroom⟩ := h
  refine ⟨?_, ?_, ?_⟩ <;> rw [hm'.engine]
  · exact hdict
  · exact hrunning
  · simp only [Engine.entered, List.length_cons]
    push_cast at hroom ⊢
    omega

end Ready

lemma callsTo_operation {op : Stack → Except Fault Stack}
    (hop : m.engine.dict.operation? id = some op) (ht : op m.engine.stack = .ok t) :
    CallsTo id m t := by
  obtain ⟨f, p, hget, hcode, hnative, hp⟩ := Dictionary.exists_of_operation? hop
  refine ⟨_, _, ?_, .refl, becomes_engine m _⟩
  rw [call_primitive hget hcode hnative, primitive_of_onStack? hp, onStack, get_bind]
  simp only [ht]
  rfl

section Body

variable (hcalls : ∀ {m id t}, Ready d n m → apply id m.engine.stack = some t → CallsTo id m t)
include hcalls

/-- One instruction of a word, with all that is called by it. -/
lemma stepsTo_of_perform {i : Instr} (h : Ready d n m) (hframes : m.engine.frames ≠ [])
    (hspot : Spot m.engine.dict m.engine.fn m.engine.pc past (i :: rest))
    (ht : Dictionary.perform apply m.engine.stack i = some t) :
    ∃ m', StepsTo m m' ∧ Becomes m { m.engine with pc := m.engine.pc + 2, stack := t } m' := by
  cases i with
  | push k =>
      obtain ⟨m', hm', hstep⟩ := step_push hspot
      cases ht
      exact ⟨m', .single ⟨h.running, hframes, hstep⟩, hm'⟩
  | call c =>
      obtain ⟨m1, hm1, hstep⟩ := step_call hspot
      have hready : Ready d n m1 := h.becomes (t := m.engine.stack) hm1
      obtain ⟨m2, m', hcall, hsteps, hm'⟩ := hcalls (t := t) hready (by rw [hm1.engine]; exact ht)
      rw [hm1.engine] at hm'
      exact ⟨m', .head ⟨h.running, hframes, hstep.trans hcall⟩ hsteps, hm'.engine,
        hm'.input.trans hm1.input, hm'.console.trans hm1.console⟩

/-- The instructions of a word, one after the other.  The induction is over those that are left. -/
lemma stepsTo_of_foldlM (h : Ready d n m) (hframes : m.engine.frames ≠ [])
    (hspot : Spot m.engine.dict m.engine.fn m.engine.pc past rest)
    (ht : rest.foldlM (Dictionary.perform apply) m.engine.stack = some t) :
    ∃ m', StepsTo m m' ∧
      Becomes m { m.engine with pc := m.engine.pc + 2 * rest.length, stack := t } m' := by
  induction rest generalizing m past with
  | nil =>
      cases ht
      exact ⟨m, .refl, by simp, rfl, rfl⟩
  | cons i rest ih =>
      rw [List.foldlM_cons] at ht
      obtain ⟨t1, hi, ht⟩ := Option.bind_eq_some_iff.mp ht
      obtain ⟨m1, hsteps1, hm1⟩ := stepsTo_of_perform hcalls h hframes hspot hi
      have hspot1 : Spot m1.engine.dict m1.engine.fn m1.engine.pc (past ++ [i]) rest := by
        rw [hm1.engine]
        exact hspot.next
      obtain ⟨m', hsteps, hm'⟩ := ih (h.becomes hm1) (by rw [hm1.engine]; exact hframes) hspot1
        (by rw [hm1.engine]; exact ht)
      refine ⟨m', hsteps1.trans hsteps, ?_, hm'.input.trans hm1.input,
        hm'.console.trans hm1.console⟩
      rw [hm'.engine, hm1.engine, List.length_cons]
      push_cast
      congr 1
      ring

/-- A finished word is entered, its instructions are executed, and it returns. -/
lemma callsTo_word (h : Ready d (n + 1) m) (hbody : d.Finished id body)
    (ht : body.foldlM (Dictionary.perform apply) m.engine.stack = some t) : CallsTo id m t := by
  rw [← h.dict] at hbody
  obtain ⟨m1, hm1, hcall⟩ := call_word hbody h.not_full
  have hready1 := h.entered hm1
  have hspot1 : Spot m1.engine.dict m1.engine.fn m1.engine.pc [] body := by
    rw [hm1.engine]
    exact Spot.start hbody
  obtain ⟨m2, hsteps, hm2⟩ := stepsTo_of_foldlM hcalls (t := t) hready1
    (by rw [hm1.engine]; simp [Engine.entered]) hspot1 (by rw [hm1.engine]; exact ht)
  have hframes2 : m2.engine.frames = ⟨m.engine.fn, m.engine.pc⟩ :: m.engine.frames := by
    rw [hm2.engine, hm1.engine]
    rfl
  have hspot2 : Spot m2.engine.dict m2.engine.fn m2.engine.pc body [] := by
    rw [hm2.engine, hm1.engine]
    refine ⟨by rw [List.append_nil]; exact hbody, ?_⟩
    simp only [Engine.entered]
    ring
  obtain ⟨m', hm', hstep⟩ := step_return hspot2 hframes2
  have hlast : StepsTo m1 m' :=
    hsteps.tail ⟨(hready1.becomes hm2).running, by simp [hframes2], hstep⟩
  refine ⟨m1, m', hcall, hlast, ?_, hm'.input.trans (hm2.input.trans hm1.input),
    hm'.console.trans (hm2.console.trans hm1.console)⟩
  rw [hm'.engine, hm2.engine, hm1.engine]
  rfl

end Body

/-- **What the evaluation gives, the machine comes to.**  The induction is over how deep calls may
be nested. -/
lemma callsTo_of_applied (h : Ready d n m) (ht : d.applied n id m.engine.stack = some t) :
    CallsTo id m t := by
  induction n generalizing m id t with
  | zero =>
      rcases Dictionary.applied_eq_some ht with ⟨op, hop, hstack⟩ | ⟨k, _, hk, _⟩
      · exact callsTo_operation (by rw [h.dict]; exact hop) hstack
      · cases hk
  | succ n ih =>
      rcases Dictionary.applied_eq_some ht with ⟨op, hop, hstack⟩ | ⟨k, body, hk, hbody, hstack⟩
      · exact callsTo_operation (by rw [h.dict]; exact hop) hstack
      · cases hk
        exact callsTo_word ih h (Dictionary.finished_of_body? hbody) hstack

/-- At the top level of the machine, with the data stack `t` instead of its own, the word `w` leads
to the data stack `t'`: it comes back without a fault, and everything else is as it was. -/
def Turns (m : Machine) (w : Text) (t t' : Stack) : Prop :=
  ∃ m', Line dispatch [w] { m with engine := { m.engine with stack := t } } .back m' ∧
    Becomes m { m.engine with stack := t' } m'

lemma line_of_stepsTo (h : StepsTo m m') (hrunning : m'.engine.running = true)
    (hframes : m'.engine.frames = []) :
    Line dispatch [] m .back m' := by
  induction h using Relation.ReflTransGen.head_induction_on with
  | refl => exact .last (advance_back hrunning hframes)
  | head hstep _ ih =>
      obtain ⟨hrunning1, hframes1, hstep⟩ := hstep
      refine .next ?_ ih
      rw [advance_step _ _ hrunning1 hframes1, hstep]
      rfl

lemma turns_of_applied {f : Function} (h : Ready d n m) (hframes : m.engine.frames = [])
    (hmode : m.engine.mode = .execute) (hlookup : lookup? d w = some (id, f))
    (himmediate : f.immediate = false) (ht : d.applied n id t = some t') : m.Turns w t t' := by
  set a : Machine := { m with engine := { m.engine with stack := t } } with ha
  have hready : Ready d n a := ⟨h.dict, h.running, h.room⟩
  obtain ⟨m1, m', hcall, hsteps, hm'⟩ := callsTo_of_applied hready ht
  refine ⟨m', .next ?_ (line_of_stepsTo hsteps ?_ ?_), hm'.engine, hm'.input, hm'.console⟩
  · have hdispatch :=
      dispatch_of_call (m := a) (by rw [hready.dict]; exact hlookup) himmediate hmode
    rw [advance_word (m := a) h.running hframes, hdispatch, bind_of_ok hcall]
    rfl
  · rw [hm'.engine]
    exact h.running
  · rw [hm'.engine]
    exact hframes

/-! ## The prelude -/

/-- The dictionary that the prelude leaves: the functions from the start, and six words. -/
def preludeDictionary : Dictionary :=
  [("neg", [.push 0, .call 9, .call 3]), ("sq", [.call 6, .call 4]),
  ("cube", [.call 6, .call 6, .call 4, .call 4]),
    ("inc", [.push 1, .call 2]), ("dec", [.push 1, .call 3]),
    ("sumsq", [.call 17, .call 9, .call 17, .call 2])].foldl
      (fun d (name, body) =>
        d.push { name := utf8 name, code := Instr.assemble body ++ [Opcode.ret.code] })
      Dictionary.initial

lemma taught_prelude :
    Dictionary.initial.taught none (Stream.ofText preludeName preludeText).items
      = some preludeDictionary := by
  decide +kernel

lemma TopLevel.limit {m₀ : Machine} (h : TopLevel m₀ m) (hm₀ : m₀.IsSound) :
    m.engine.limit = m₀.engine.limit := by
  induction h with
  | enter hreach _ _ hm' _ =>
      rw [hm'.engine]
      exact hreach.limit hm₀
  | @word m m' h _ hread ih =>
      have hchanges := proceeds_read m (h.isSound hm₀).1.input
      rw [hread] at hchanges
      exact (Changes.limit hchanges).trans ih

/-- **The words of the prelude compute their functions.**  If the prelude is the first thing that a
new machine reads, then, once it has been read, its words do with every data stack what they are
for, in 32 bits and whatever the other inputs are.  On an output that does not fail, the prelude
does get read. -/
theorem prelude_words_compute {settings : List Setting} {m₀ : Machine} {others : List Stream}
    (hnew : create settings = .ok m₀)
    (hqueue : m₀.input.queue = .ofText preludeName preludeText :: others)
    (hlimit : m₀.engine.limit ≤ 0 ∨ 2 ≤ m₀.engine.limit) :
    (m₀.console.Reliable → ∃ m, TopLevel m₀ m ∧ m.input.HasRead others) ∧
    ∀ m, TopLevel m₀ m → m.input.HasRead others → ∀ (s : Stack) (a b : Int32),
      m.Turns (utf8 "neg") (a :: s) (Int32.ofInt (-a.toInt) :: s) ∧
      m.Turns (utf8 "sq") (a :: s) (Int32.ofInt (a.toInt * a.toInt) :: s) ∧
      m.Turns (utf8 "cube") (a :: s) (Int32.ofInt (a.toInt * a.toInt * a.toInt) :: s) ∧
      m.Turns (utf8 "inc") (a :: s) (Int32.ofInt (a.toInt + 1) :: s) ∧
      m.Turns (utf8 "dec") (a :: s) (Int32.ofInt (a.toInt - 1) :: s) ∧
      m.Turns (utf8 "sumsq") (b :: a :: s)
        (Int32.ofInt (a.toInt * a.toInt + b.toInt * b.toInt) :: s) := by
  have hm₀ := fresh_create hnew
  refine ⟨fun hreliable => ?_, fun m htop hread s a b => ?_⟩
  · have hfirm := firm_create hnew hreliable
    exact exists_hasRead hm₀ hqueue taught_prelude ⟨_, announced_heard hfirm, [], hfirm.heard⟩
  obtain ⟨hdict, hmode, hrunning⟩ := htop.dict_of_hasRead hm₀ hqueue taught_prelude hread
  have hframes : m.engine.frames = [] := congrArg Control.frames (htop.isSound hm₀.isSound).2
  have hready : Ready preludeDictionary 2 m := by
    refine ⟨hdict, hrunning, ?_⟩
    rw [htop.limit hm₀.isSound, hframes]
    simpa using hlimit
  simp only [Int32.ofInt_neg, Int32.ofInt_mul, Int32.ofInt_add, Int32.ofInt_sub, Int32.ofInt_toInt]
  refine ⟨?_, ?_, ?_, ?_, ?_, ?_⟩
  · exact turns_of_applied hready hframes hmode rfl rfl rfl
  · exact turns_of_applied hready hframes hmode rfl rfl rfl
  · rw [Int32.mul_assoc]
    exact turns_of_applied hready hframes hmode rfl rfl rfl
  · exact turns_of_applied hready hframes hmode rfl rfl rfl
  · exact turns_of_applied hready hframes hmode rfl rfl rfl
  · rw [Int32.add_comm]
    exact turns_of_applied hready hframes hmode rfl rfl rfl

/-- The largest squares and the least number do not fit, and two calls are as deep as the limit
allows. -/
theorem prelude_words_compute_of_new :
    ∃ m₀ m, create [.prelude, .output (.memory []), .limit 2] = .ok m₀ ∧ m₀.engine.limit = 2 ∧
      TopLevel m₀ m ∧ m.input.HasRead [] ∧ m.Turns (utf8 "neg") [-2147483648] [-2147483648] ∧
      m.Turns (utf8 "sumsq") [1, 46341, 7] [-2147479014, 7] := by
  obtain ⟨m₀, hnew⟩ : ∃ m₀, create [.prelude, .output (.memory []), .limit 2] = .ok m₀ := ⟨_, rfl⟩
  obtain ⟨hqueue, hlimit, hreliable⟩ :
      m₀.input.queue = [.ofText preludeName preludeText] ∧ m₀.engine.limit = 2 ∧
        m₀.console.Reliable := by
    cases hnew
    exact ⟨rfl, rfl, Console.reliable_of_memory rfl rfl⟩
  obtain ⟨hexists, hcompute⟩ := prelude_words_compute hnew hqueue (Or.inr (by rw [hlimit]))
  obtain ⟨m, htop, hread⟩ := hexists hreliable
  obtain ⟨hneg, -⟩ := hcompute m htop hread [] (-2147483648) 0
  obtain ⟨-, -, -, -, -, hsumsq⟩ := hcompute m htop hread [7] 46341 1
  exact ⟨m₀, m, hnew, hlimit, htop, hread, hneg, hsumsq⟩

end Machine

end ColonMachine
