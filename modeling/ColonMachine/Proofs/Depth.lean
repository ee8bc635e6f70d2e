import ColonMachine.Proofs.Callers
import ColonMachine.Proofs.Compilation
import ColonMachine.Proofs.Refinement
import Mathlib.Data.List.MinMax

/-!
# How deep a word goes

Code has no branches, so every call in a word is made unless something stops the word first.  The
depth that a word needs of the return stack is therefore a matter of the dictionary alone:
`Dictionary.need` is 0 for what is run without being entered, and one more than the most that a
callee needs for a finished word.  A word from which one can be reached that calls itself needs more
than any depth (`Dictionary.Endless`).

The main result, `call_depth_exact`, compares that with what happens when the word is dispatched.

* `Ahead` collects the calls that are still to be made on the way back to the top level loop, each
  with the depth of the return stack at which it will be made.
* `moving` lists what an instruction of a word does to the place where the machine stands.
* If a word completes, then all calls ahead were made.  What holds of the calls ahead is found from
  the end of the run backwards (`ahead_of_back`), and no depth is assumed of any of them.
* If the return stack overflows, then the call was one of those ahead at the start, and their depth
  is bounded from the start of the run onwards (`exists_deep_of_overflow`).
-/

namespace ColonMachine

/-! ## The depth that is needed -/

/-- The function that an instruction calls, if it is a call. -/
def Item.callee? : Item → Option FuncId
  | .operand .call arg => some (Code.callee arg)
  | _ => none

lemma Item.callee?_eq_some {item : Item} {id : FuncId} :
    item.callee? = some id ↔ ∃ arg, item = .operand .call arg ∧ Code.callee arg = id := by
  fun_cases Item.callee? item <;> grind [Item.callee?]

namespace Dictionary

variable {d : Dictionary} {id id' : FuncId} {f : Function} {body : List Instr} {callee : Code}

/-- The functions that the code of `id` calls, in order. -/
def callees (d : Dictionary) (id : FuncId) : List FuncId :=
  match d.get? id with
  | none => []
  | some f => (Code.items f.code).filterMap (·.1.callee?)

/-- How many levels of the return stack the function `id` takes up, together with all that it calls.
Newer functions are not counted; no word calls one. -/
def need (d : Dictionary) (id : FuncId) : ℕ :=
  match d.get? id with
  | none => 0
  | some f =>
    if f.code.isEmpty then 0
    else 1 + ((d.callees id).map fun callee =>
      if 0 ≤ callee ∧ callee < id then d.need callee else 0).foldr max 0
termination_by id.toNat
decreasing_by
  next h => exact (Int.toNat_lt_toNat (Int.lt_of_le_of_lt h.1 h.2)).mpr h.2

/-- A word that calls itself can be reached from `id` by calls. -/
def Endless (d : Dictionary) (id : FuncId) : Prop :=
  ∃ self, Relation.ReflTransGen d.Calls id self ∧ d.Calls self self

lemma mem_callees : id' ∈ d.callees id ↔ d.Calls id id' := by
  rw [callees, Calls]
  cases d.get? id with
  | none => simp
  | some f =>
      simp only [List.mem_filterMap, List.mem_map, Option.some.injEq, exists_and_left,
        exists_eq_left']
      constructor
      · rintro ⟨item, hitem, hcallee⟩
        obtain ⟨arg, harg, hid⟩ := Item.callee?_eq_some.mp hcallee
        exact ⟨arg, ⟨item, hitem, harg⟩, hid⟩
      · rintro ⟨arg, ⟨item, hitem, harg⟩, hid⟩
        exact ⟨item, hitem, Item.callee?_eq_some.mpr ⟨arg, harg, hid⟩⟩

lemma Finished.callees_eq (h : d.Finished id body) :
    d.callees id = body.filterMap (·.item.callee?) := by
  obtain ⟨-, f, hget, hcode⟩ := h
  have hitems := congrArg (List.filterMap Item.callee?) (Instr.items_assemble body)
  rw [← hcode, List.filterMap_map, List.filterMap_append, List.filterMap_map] at hitems
  rw [callees, hget]
  exact hitems.trans (List.append_nil _)

lemma Finished.mem_of_calls (h : d.Finished id body) (hcalls : d.Calls id id') :
    ∃ callee, Instr.call callee ∈ body ∧ Code.callee callee = id' := by
  rw [← mem_callees, h.callees_eq, List.mem_filterMap] at hcalls
  obtain ⟨i, hi, hcallee⟩ := hcalls
  cases i <;> cases hcallee
  exact ⟨_, hi, rfl⟩

lemma need_of_code_nil (hget : d.get? id = some f) (hcode : f.code = []) : d.need id = 0 := by
  rw [need, hget]
  simp [hcode]

lemma need_of_finished (h : d.Finished id body) :
    d.need id = 1 + ((d.callees id).map fun callee =>
      if 0 ≤ callee ∧ callee < id then d.need callee else 0).foldr max 0 := by
  obtain ⟨-, f, hget, hcode⟩ := h
  rw [need, hget]
  simp [hcode]

lemma need_callee_lt (h : d.Finished id body) (hmem : Instr.call callee ∈ body)
    (hlt : Code.callee callee < id) :
    d.need (Code.callee callee) < d.need id := by
  rw [need_of_finished h, Nat.add_comm, Nat.lt_succ_iff]
  refine List.le_max_of_le (List.mem_map.mpr ⟨_, mem_callees.mpr (calls_of_mem h hmem), rfl⟩) ?_
  rw [if_pos ⟨Int.natCast_nonneg _, hlt⟩]

lemma need_le {n : ℕ} (h : d.Finished id body)
    (hcallees : ∀ callee, Instr.call callee ∈ body → d.need (Code.callee callee) ≤ n) :
    d.need id ≤ n + 1 := by
  rw [need_of_finished h, Nat.add_comm, Nat.add_le_add_iff_right]
  refine List.max_le_of_forall_le _ _ fun k hk => ?_
  obtain ⟨id', hid', rfl⟩ := List.mem_map.mp hk
  obtain ⟨callee, hmem, rfl⟩ := h.mem_of_calls (mem_callees.mp hid')
  split_ifs
  · exact hcallees callee hmem
  · exact Nat.zero_le n

lemma not_endless_of_code_nil (hget : d.get? id = some f) (hcode : f.code = []) :
    ¬ d.Endless id := by
  have hnone : ∀ id', ¬ d.Calls id id' := by
    intro id' hcalls
    have hmem := mem_callees.mpr hcalls
    rw [callees, hget] at hmem
    simp [hcode, Code.items, Code.itemsAfter] at hmem
  rintro ⟨self, hreach, hself⟩
  rcases hreach.cases_head with rfl | ⟨id', hcalls, -⟩
  · exact hnone _ hself
  · exact hnone _ hcalls

/-- An endless word has an endless callee, which may be the word itself. -/
lemma Endless.exists_callee (h : d.Endless id) (hbody : d.Finished id body) :
    ∃ callee, Instr.call callee ∈ body ∧ d.Endless (Code.callee callee) := by
  obtain ⟨self, hreach, hself⟩ := h
  rcases hreach.cases_head with rfl | ⟨id', hcalls, hrest⟩
  · obtain ⟨callee, hmem, hcallee⟩ := hbody.mem_of_calls hself
    exact ⟨callee, hmem, by rw [hcallee]; exact ⟨id, .refl, hself⟩⟩
  · obtain ⟨callee, hmem, rfl⟩ := hbody.mem_of_calls hcalls
    exact ⟨callee, hmem, self, hrest, hself⟩

lemma not_endless_callee (h : ¬ d.Endless id) (hbody : d.Finished id body)
    (hmem : Instr.call callee ∈ body) :
    ¬ d.Endless (Code.callee callee) := by
  rintro ⟨self, hreach, hself⟩
  exact h ⟨self, .head (calls_of_mem hbody hmem) hreach, hself⟩

end Dictionary

namespace Sound

variable {e : Engine} {id : FuncId} {body : List Instr} {callee : Code}

/-- A word that is not endless calls older functions only. -/
lemma callee_lt (h : Sound e) (hbody : e.dict.Finished id body) (hend : ¬ e.dict.Endless id)
    (hmem : Instr.call callee ∈ body) : Code.callee callee < id := by
  refine lt_of_le_of_ne (h.below hbody callee hmem).1 fun heq => hend ⟨id, .refl, ?_⟩
  have hcalls := Dictionary.calls_of_mem hbody hmem
  rwa [heq] at hcalls

/-- The depth that a finished word needs, as an equation. -/
lemma need_eq (h : Sound e) (hbody : e.dict.Finished id body) (hend : ¬ e.dict.Endless id) :
    e.dict.need id = 1 + ((e.dict.callees id).map e.dict.need).foldr max 0 := by
  rw [Dictionary.need_of_finished hbody]
  congr 2
  refine List.map_congr_left fun id' hid' => if_pos ?_
  obtain ⟨callee, hmem, rfl⟩ := hbody.mem_of_calls (Dictionary.mem_callees.mp hid')
  exact ⟨Int.natCast_nonneg _, h.callee_lt hbody hend hmem⟩

end Sound

/-! ## The calls ahead -/

/-- On the way back to the top level loop, every call that is still to be made satisfies `Q`, which
is told the depth of the return stack and the function that is called. -/
inductive Ahead (d : Dictionary) (Q : ℕ → FuncId → Prop) : Control → Prop where
  | top (pc : ℤ) : Ahead d Q ⟨bootId, pc, []⟩
  | word {id : FuncId} {pc : ℤ} {past rest : List Instr} {frame : Frame} {frames : List Frame}
      (hspot : Spot d id pc past rest)
      (hcalls : ∀ callee, Instr.call callee ∈ rest → Q (frames.length + 1) (Code.callee callee))
      (houter : Ahead d Q ⟨frame.fn, frame.pc, frames⟩) : Ahead d Q ⟨id, pc, frame :: frames⟩

namespace Ahead

variable {d : Dictionary} {Q : ℕ → FuncId → Prop} {id : FuncId} {pc pc' : ℤ} {frames : List Frame}
  {past rest : List Instr} {i : Instr}

lemma calls (h : Ahead d Q ⟨id, pc, frames⟩) (hspot : Spot d id pc past rest) :
    ∀ callee, Instr.call callee ∈ rest → Q frames.length (Code.callee callee) := by
  cases h with
  | top => exact absurd rfl hspot.finished.ne_boot
  | word hspot' hcalls _ =>
      rw [hspot.unique hspot']
      exact hcalls

lemma outer {frame : Frame} (h : Ahead d Q ⟨id, pc, frame :: frames⟩) :
    Ahead d Q ⟨frame.fn, frame.pc, frames⟩ := by
  cases h with
  | word _ _ houter => exact houter

/-- Elsewhere in the same word. -/
lemma move (h : Ahead d Q ⟨id, pc, frames⟩) (hspot : Spot d id pc' past rest)
    (hcalls : ∀ callee, Instr.call callee ∈ rest → Q frames.length (Code.callee callee)) :
    Ahead d Q ⟨id, pc', frames⟩ := by
  cases h with
  | top => exact absurd rfl hspot.finished.ne_boot
  | word _ _ houter => exact .word hspot hcalls houter

lemma next (h : Ahead d Q ⟨id, pc, frames⟩) (hspot : Spot d id pc past (i :: rest)) :
    Ahead d Q ⟨id, pc + 2, frames⟩ :=
  h.move hspot.next fun callee hmem => h.calls hspot callee (List.mem_cons_of_mem i hmem)

lemma previous (h : Ahead d Q ⟨id, pc + 2, frames⟩) (hspot : Spot d id pc past (i :: rest))
    (hi : ∀ callee, i = .call callee → Q frames.length (Code.callee callee)) :
    Ahead d Q ⟨id, pc, frames⟩ := by
  refine h.move hspot fun callee hmem => ?_
  rcases List.mem_cons.mp hmem with hcall | hmem
  · exact hi callee hcall.symm
  · exact h.calls hspot.next callee hmem

end Ahead

/-! ## One instruction of a word -/

namespace Machine

variable {m m' m1 start : Machine} {id : FuncId} {f : Function} {u : Upshot} {ws : List Text}

/-- The machine `m` comes up while a word is executed that was in the dictionary at `start`, when no
definition was open. -/
structure Amid (start m : Machine) : Prop where
  closed : start.engine.defining = none
  changes : Changes start m
  sound : m.IsSound
  active : Active start.engine.dict m.engine.fn m.engine.pc m.engine.frames

namespace Amid

lemma limit (h : Amid start m) : m.engine.limit = start.engine.limit := h.changes.limit

lemma get? (h : Amid start m) (hget : start.engine.dict.get? id = some f) :
    m.engine.dict.get? id = some f := by
  obtain ⟨f', hget', -, hsame⟩ := h.changes.grows.kept id f hget
  rw [hget', hsame (by rw [h.closed]; simp)]

lemma finished (h : Amid start m) {body : List Instr} (hbody : start.engine.dict.Finished id body) :
    m.engine.dict.Finished id body := by
  obtain ⟨hid, f, hget, hcode⟩ := hbody
  exact ⟨hid, f, h.get? hget, hcode⟩

lemma spot (h : Amid start m) {pc : ℤ} {past rest : List Instr}
    (hspot : Spot start.engine.dict id pc past rest) : Spot m.engine.dict id pc past rest :=
  hspot.mono fun _ => h.finished

lemma next (h : Amid start m) (hstep : step m = .ok () m1)
    (hactive : Active start.engine.dict m1.engine.fn m1.engine.pc m1.engine.frames) :
    Amid start m1 := by
  have hchanges := proceeds_step m h.sound.input
  rw [hstep] at hchanges
  exact ⟨h.closed, h.changes.trans hchanges, (isSound_step h.sound).of_ok hstep, hactive⟩

/-- A word calls functions that were in the dictionary at the start. -/
lemma exists_callee (h : Amid start m) {past rest : List Instr} {callee : Code}
    (hspot : Spot start.engine.dict m.engine.fn m.engine.pc past (.call callee :: rest)) :
    ∃ f, start.engine.dict.get? (Code.callee callee) = some f ∧
      m.engine.dict.get? (Code.callee callee) = some f ∧
      Callable m.engine.dict (Code.callee callee) f := by
  have hopen := h.sound.engine.untouched_of_word hspot.finished.ne_boot
  obtain ⟨f, hget, hcall, -⟩ := h.sound.engine.callee (h.spot hspot) hopen
  have hle := (h.sound.engine.below (h.spot hspot).finished callee (by simp)).1
  obtain ⟨-, g, hg, -⟩ := hspot.finished
  have hlt := (Dictionary.bounds_of_get? hg).2
  obtain ⟨f', hf'⟩ : ∃ f', start.engine.dict.get? (Code.callee callee) = some f' :=
    Dictionary.exists_get? (Int.natCast_nonneg _) (Int.lt_of_le_of_lt hle hlt)
  have hsame := h.get? hf'
  rw [hget] at hsame
  cases hsame
  exact ⟨f, hf', hget, hcall⟩

end Amid

/-- A function without code is run where the machine stands, and never takes up the return stack. -/
lemma call_codeless (htidy : m.input.Tidy) (hget : m.engine.dict.get? id = some f)
    (hcall : Callable m.engine.dict id f) (hcode : f.code = []) :
    Does (call id) m (fun _ m' => m'.engine.control = m.engine.control)
      (fun i _ => i ≠ .fault .returnOverflow) := by
  cases hcall with
  | primitive p _ hnative =>
      refine ((primitive_effect p m htidy).congr (call_primitive hget hcode hnative)).imp ?_ ?_
      · rintro - m' ⟨heffect, -⟩
        exact heffect.control
      · rintro i m' (⟨cause, rfl⟩ | ⟨what, rfl, rfl | rfl, -⟩) <;> simp
  | empty _ hnative => exact does_of_ok (call_empty hget hcode hnative) rfl
  | word body _ hbody =>
      obtain ⟨-, g, hg, hcode'⟩ := hbody
      rw [hget] at hg
      cases hg
      simp [hcode'] at hcode

/-- What the next instruction of a word can do to the place where the machine stands. -/
inductive Moving (start m : Machine) : Prop where
  | back {m1 : Machine} {past : List Instr} {frame : Frame} {frames : List Frame}
      (hspot : Spot start.engine.dict m.engine.fn m.engine.pc past [])
      (hframes : m.engine.frames = frame :: frames)
      (hcontrol : m1.engine.control = ⟨frame.fn, frame.pc, frames⟩) (hm1 : Amid start m1)
      (hstep : step m = .ok () m1)
  /-- On to the next instruction, without entering a word. -/
  | on {m1 : Machine} {past rest : List Instr} {i : Instr}
      (hspot : Spot start.engine.dict m.engine.fn m.engine.pc past (i :: rest))
      (hcode : ∀ callee, i = .call callee →
        ∃ f, start.engine.dict.get? (Code.callee callee) = some f ∧ f.code = [])
      (hcontrol : m1.engine.control = ⟨m.engine.fn, m.engine.pc + 2, m.engine.frames⟩)
      (hm1 : Amid start m1) (hstep : step m = .ok () m1)
  | enter {m1 : Machine} {past rest body : List Instr} {callee : Code}
      (hspot : Spot start.engine.dict m.engine.fn m.engine.pc past (.call callee :: rest))
      (hbody : start.engine.dict.Finished (Code.callee callee) body) (hfull : ¬ m.engine.Full)
      (hcontrol : m1.engine.control
        = ⟨Code.callee callee, -1, ⟨m.engine.fn, m.engine.pc + 2⟩ :: m.engine.frames⟩)
          (hm1 : Amid start m1)
      (hstep : step m = .ok () m1)
  | full {m1 : Machine} {past rest body : List Instr} {callee : Code}
      (hspot : Spot start.engine.dict m.engine.fn m.engine.pc past (.call callee :: rest))
      (hbody : start.engine.dict.Finished (Code.callee callee) body) (hfull : m.engine.Full)
      (hstep : step m = .error (.fault .returnOverflow) m1)
  | broken {m1 : Machine} {i : Interrupt} (hi : i ≠ .fault .returnOverflow)
      (hstep : step m = .error i m1)

lemma moving_call (h : Amid start m) {past rest : List Instr} {callee : Code}
    (hspot : Spot start.engine.dict m.engine.fn m.engine.pc past (.call callee :: rest)) :
    Moving start m := by
  obtain ⟨f, hget, hget', hcall⟩ := h.exists_callee hspot
  obtain ⟨m1, hm1, hstep⟩ := step_call (h.spot hspot)
  have hactive := h.active.move hspot.next
  by_cases hcode : f.code = []
  · have hdoes :=
      call_codeless (m := m1) (by rw [hm1.input]; exact h.sound.input)
        (by rw [hm1.engine]; exact hget')
      (by rw [hm1.engine]; exact hcall) hcode
    rw [hm1.engine] at hdoes
    cases hresult : call (Code.callee callee) m1 with
    | ok _ m2 =>
        have hcontrol := hdoes.of_ok hresult
        refine .on hspot ?_ hcontrol (h.next (hstep.trans hresult) ?_) (hstep.trans hresult)
        · rintro _ ⟨⟩
          exact ⟨f, hget, hcode⟩
        · obtain ⟨hfn, hpc, hframes⟩ := Control.mk.inj hcontrol
          rw [hfn, hpc, hframes]
          exact hactive
    | error i m2 => exact .broken (hdoes.of_error hresult) (hstep.trans hresult)
  · cases hcall with
    | primitive _ hnil => exact absurd hnil hcode
    | empty hnil => exact absurd hnil hcode
    | word body _ hbody =>
        have hbody1 : m1.engine.dict.Finished (Code.callee callee) body := by
          rw [hm1.engine]; exact hbody
        have hbody' : start.engine.dict.Finished (Code.callee callee) body := by
          obtain ⟨hid, g, hg, hcode⟩ := hbody
          rw [hget'] at hg
          cases hg
          exact ⟨hid, f, hget, hcode⟩
        have hsame : m1.engine.Full ↔ m.engine.Full := by rw [hm1.engine]; rfl
        by_cases hfull : m.engine.Full
        · exact .full hspot hbody' hfull (hstep.trans (call_full hbody1 (hsame.mpr hfull)))
        · obtain ⟨m2, hm2, hok⟩ := call_word hbody1 (fun h => hfull (hsame.mp h))
          have hengine :
              m2.engine = Engine.entered { m.engine with pc := m.engine.pc + 2 }
                (Code.callee callee) := by
            rw [hm2.engine, hm1.engine]
          refine .enter hspot hbody' hfull (by rw [hengine]; rfl) (h.next (hstep.trans hok) ?_)
            (hstep.trans hok)
          rw [hengine]
          exact hactive.enter hspot.next hbody'

lemma moving (h : Amid start m) (hframes : m.engine.frames ≠ []) : Moving start m := by
  rcases h.active.inv with ⟨-, hnil, -⟩ | ⟨past, rest, frame, frames, hspot, hcons, hback⟩
  · exact absurd hnil hframes
  · rcases rest with _ | ⟨callee | n, rest⟩
    · obtain ⟨m1, hm1, hstep⟩ := step_return (h.spot hspot) hcons
      refine .back hspot hcons (by rw [hm1.engine]; rfl) (h.next hstep ?_) hstep
      rw [hm1.engine]
      exact hback
    · exact moving_call h hspot
    · obtain ⟨m1, hm1, hstep⟩ := step_push (h.spot hspot)
      refine .on hspot (fun _ hcall => by cases hcall) (by rw [hm1.engine]; rfl)
        (h.next hstep ?_) hstep
      rw [hm1.engine]
      exact h.active.move hspot.next

lemma Amid.step (h : Amid start m) (hframes : m.engine.frames ≠ []) (hstep : step m = .ok () m1) :
    Amid start m1 := by
  cases moving h hframes with
  | back _ _ _ hm1 hok => rw [hstep] at hok; cases hok; exact hm1
  | on _ _ _ hm1 hok => rw [hstep] at hok; cases hok; exact hm1
  | enter _ _ _ _ hm1 hok => rw [hstep] at hok; cases hok; exact hm1
  | full _ _ _ herror => rw [hstep] at herror; cases herror
  | broken _ herror => rw [hstep] at herror; cases herror

/-! ## Where a line ends -/

/-- With no words left on the line, what advances is an instruction. -/
lemma step_of_advance (h : advance dispatch [] m = .inl (ws, m1)) :
    ws = [] ∧ m.engine.frames ≠ [] ∧ step m = .ok () m1 := by
  have hrunning : m.engine.running = true := by
    by_contra hstopped
    rw [advance_stopped (by simpa using hstopped)] at h
    cases h
  have hframes : m.engine.frames ≠ [] := by
    intro hnil
    rw [advance_back hrunning hnil] at h
    cases h
  rw [advance_step _ _ hrunning hframes] at h
  cases hstep : step m with
  | ok _ m2 =>
      rw [hstep] at h
      cases h
      exact ⟨rfl, hframes, rfl⟩
  | error i m2 =>
      rw [hstep] at h
      obtain ⟨u, m', -, hafter, -⟩ := after_error (alike_refl m2) i [] []
      rw [hafter] at h
      cases h

/-- Where a line ends, the machine is back at the top level, or has been stopped, or the next
instruction is interrupted. -/
lemma advance_last_cases (h : advance dispatch [] m = .inr (u, m')) :
    u = .exited ∨ u = .back ∧ m.engine.frames = [] ∨
      m.engine.frames ≠ [] ∧ ∃ i m1, step m = .error i m1 ∧
      after [] (.error i m1 : Result Unit) = .inr (u, m') := by
  cases hrunning : m.engine.running with
  | false =>
      rw [advance_stopped hrunning] at h
      cases h
      exact Or.inl rfl
  | true =>
      by_cases hframes : m.engine.frames = []
      · rw [advance_back hrunning hframes] at h
        cases h
        exact Or.inr (Or.inl ⟨rfl, hframes⟩)
      · rw [advance_step _ _ hrunning hframes] at h
        cases hstep : step m with
        | ok _ m1 =>
            rw [hstep] at h
            cases h
        | error i m1 =>
            rw [hstep] at h
            exact Or.inr (Or.inr ⟨hframes, i, m1, rfl, h⟩)

lemma fault?_of_after {i : Interrupt} (h : after [] (.error i m1 : Result Unit) = .inr (u, m')) :
    u ≠ .back ∧ ∀ what, u.fault? = some what → i = .fault what := by
  cases i with
  | fault what =>
      rw [after] at h
      split at h <;> cases h <;> simp [Upshot.fault?]
  | _ =>
      cases h
      simp [Upshot.fault?]

/-! ## Completing -/

variable {Q : ℕ → FuncId → Prop}

/-- As far as the limit of the return stack allows, `Q` is true of functions without code, and of a
word if it is true of all that the word calls. -/
structure FromCallees (start : Machine) (Q : ℕ → FuncId → Prop) : Prop where
  run : ∀ (k : ℕ) (id : FuncId) (f : Function), (0 < start.engine.limit → k ≤ start.engine.limit) →
    start.engine.dict.get? id = some f → f.code = [] → Q k id
  enter : ∀ (k : ℕ) (id : FuncId) (body : List Instr),
    (0 < start.engine.limit → k < start.engine.limit) →
    start.engine.dict.Finished id body →
    (∀ callee, Instr.call callee ∈ body → Q (k + 1) (Code.callee callee)) → Q k id

/-- One instruction, from the calls that are ahead after it to those that are ahead before it. -/
lemma ahead_of_step (hQ : FromCallees start Q) (h : Amid start m) (hframes : m.engine.frames ≠ [])
    (hstep : step m = .ok () m1) (hahead : Ahead start.engine.dict Q m1.engine.control) :
    Ahead start.engine.dict Q m.engine.control := by
  cases moving h hframes with
  | back hspot hcons hcontrol _ hok =>
      rw [hstep] at hok
      cases hok
      rw [hcontrol] at hahead
      rw [Engine.control, hcons]
      exact .word hspot (by simp) hahead
  | on hspot hcode hcontrol _ hok =>
      rw [hstep] at hok
      cases hok
      rw [hcontrol] at hahead
      refine hahead.previous hspot fun callee hcall => ?_
      obtain ⟨f, hget, hnil⟩ := hcode callee hcall
      have hdepth := h.sound.engine.depth
      rw [h.limit] at hdepth
      exact hQ.run _ _ f hdepth hget hnil
  | enter hspot hbody hfull hcontrol _ hok =>
      rw [hstep] at hok
      cases hok
      rw [hcontrol] at hahead
      refine hahead.outer.previous hspot fun callee hcall => ?_
      cases hcall
      refine hQ.enter _ _ _ (fun hlimit => ?_) hbody (hahead.calls (Spot.start hbody))
      rw [Engine.Full, h.limit] at hfull
      exact Int.not_le.mp fun hle => hfull ⟨hlimit, hle⟩
  | full _ _ _ herror => rw [hstep] at herror; cases herror
  | broken _ herror => rw [hstep] at herror; cases herror

/-- **Completing, from the end backwards.**  At the end no calls are ahead, and each instruction
that was executed adds to them a call for which `Q` has been established by then. -/
lemma ahead_of_back (hQ : FromCallees start Q) (hline : Line dispatch [] m .back m')
    (h : Amid start m) :
    Ahead start.engine.dict Q m.engine.control := by
  generalize hnil : ([] : List Text) = ws at hline
  generalize hback : Upshot.back = u at hline
  induction hline with
  | @last ws m m' u hlast =>
      subst hnil hback
      rcases advance_last_cases hlast with hu | ⟨-, hframes⟩ | ⟨-, i, m1, -, hafter⟩
      · cases hu
      · rcases h.active.inv with ⟨hfn, -, -⟩ | ⟨_, _, _, _, _, hcons, _⟩
        · rw [Engine.control, hfn, hframes]
          exact .top _
        · rw [hframes] at hcons
          cases hcons
      · exact absurd rfl (fault?_of_after hafter).1
  | @next ws ws' m m1 m' u hnext _ ih =>
      subst hnil hback
      obtain ⟨rfl, hframes, hstep⟩ := step_of_advance hnext
      exact ahead_of_step hQ h hframes hstep (ih (h.step hframes hstep) rfl rfl)

/-! ## Overflowing -/

/-- If `Q` is true of a word, it is true of all that the word calls. -/
def ToCallees (start : Machine) (Q : ℕ → FuncId → Prop) : Prop :=
  ∀ (k : ℕ) (id : FuncId) (body : List Instr), start.engine.dict.Finished id body → Q k id →
    ∀ callee, Instr.call callee ∈ body → Q (k + 1) (Code.callee callee)

/-- One instruction, from the calls that are ahead before it to those that are ahead after it. -/
lemma ahead_step (hQ : ToCallees start Q) (h : Amid start m) (hframes : m.engine.frames ≠ [])
    (hstep : step m = .ok () m1) (hahead : Ahead start.engine.dict Q m.engine.control) :
    Ahead start.engine.dict Q m1.engine.control := by
  cases moving h hframes with
  | back hspot hcons hcontrol _ hok =>
      rw [hstep] at hok
      cases hok
      rw [Engine.control, hcons] at hahead
      rw [hcontrol]
      exact hahead.outer
  | on hspot hcode hcontrol _ hok =>
      rw [hstep] at hok
      cases hok
      rw [hcontrol]
      exact hahead.next hspot
  | enter hspot hbody hfull hcontrol _ hok =>
      rw [hstep] at hok
      cases hok
      rw [hcontrol]
      have hcall := hahead.calls hspot _ List.mem_cons_self
      exact .word (Spot.start hbody) (hQ _ _ _ hbody hcall) (hahead.next hspot)
  | full _ _ _ herror => rw [hstep] at herror; cases herror
  | broken _ herror => rw [hstep] at herror; cases herror

/-- **Overflowing, from the start onwards.**  The call for which there was no room is one of those
that were ahead. -/
lemma exists_deep_of_overflow (hQ : ToCallees start Q) (hline : Line dispatch [] m u m')
    (hu : u.fault? = some .returnOverflow) (h : Amid start m)
    (hahead : Ahead start.engine.dict Q m.engine.control) :
    ∃ (k : ℕ) (id : FuncId) (body : List Instr), start.engine.dict.Finished id body ∧ Q k id ∧
      0 < start.engine.limit ∧ start.engine.limit ≤ k := by
  generalize hnil : ([] : List Text) = ws at hline
  induction hline with
  | @last ws m m' u hlast =>
      subst hnil
      rcases advance_last_cases hlast with rfl | ⟨rfl, -⟩ | ⟨hframes, i, m1, hstep, hafter⟩
      · cases hu
      · cases hu
      · rw [(fault?_of_after hafter).2 _ hu] at hstep
        cases moving h hframes with
        | full hspot hbody hfull _ =>
            rw [Engine.Full, h.limit] at hfull
            exact ⟨_, _, _, hbody, hahead.calls hspot _ List.mem_cons_self, hfull⟩
        | broken hi hstep' =>
            rw [hstep] at hstep'
            cases hstep'
            exact absurd rfl hi
        | back _ _ _ _ hok => rw [hstep] at hok; cases hok
        | on _ _ _ _ hok => rw [hstep] at hok; cases hok
        | enter _ _ _ _ _ hok => rw [hstep] at hok; cases hok
  | @next ws ws' m m1 m' u hnext _ ih =>
      subst hnil
      obtain ⟨rfl, hframes, hstep⟩ := step_of_advance hnext
      exact ih hu (h.step hframes hstep) (ahead_step hQ h hframes hstep hahead) rfl

/-! ## The limit is exact -/

/-- Dispatching a finished word at the top level enters it, and the line goes on with its code. -/
lemma exists_entered {w : Text} {body : List Instr} (hm : m.IsSound)
    (hat : m.engine.control = onPrompt) (hmode : m.engine.mode = .execute)
    (hrunning : m.engine.running = true) (hlookup : lookup? m.engine.dict w = some (id, f))
    (hbody : m.engine.dict.Finished id body) :
    ∃ m1, Amid m m1 ∧ m1.engine.control = ⟨id, -1, [⟨bootId, 0⟩]⟩ ∧
      advance dispatch [w] m = .inl ([], m1) := by
  have hframes : m.engine.frames = [] := congrArg Control.frames hat
  obtain ⟨hget, hname⟩ := get?_of_lookup? hlookup
  have hword := hm.engine.words id f hbody.1 hget
  have hfull : ¬ m.engine.Full := by
    rintro ⟨hpos, hlength⟩
    rw [hframes, List.length_nil] at hlength
    omega
  obtain ⟨m1, hm1, hcall⟩ := call_word hbody hfull
  have hdispatch : dispatch w m = .ok f.isNative m1 :=
    (dispatch_of_call hlookup hword.immediate hmode).trans (bind_of_ok hcall)
  have hcontrol : m1.engine.control = ⟨id, -1, [⟨bootId, 0⟩]⟩ := by
    rw [hm1.engine]
    exact congrArg (fun c : Control => Control.mk id (-1) (⟨c.fn, c.pc⟩ :: c.frames)) hat
  have hchanges := proceeds_dispatch w m hm.input
  rw [hdispatch] at hchanges
  refine ⟨m1, ⟨?_, hchanges, ?_, ?_⟩, hcontrol, ?_⟩
  · have := hm.engine.mode.not
    rw [hmode] at this
    simpa using this
  · exact ((isSound_dispatch hm hat (hname ▸ hword.name)).of_ok hdispatch).1
  · obtain ⟨hfn, hpc, hframes1⟩ := Control.mk.inj hcontrol
    rw [hfn, hpc, hframes1]
    exact .called (Spot.start hbody)
  · rw [advance_word hrunning hframes, hdispatch]
    rfl

lemma fromCallees_need (start : Machine) : FromCallees start fun k id =>
    start.engine.limit ≤ 0 ∨ (k + start.engine.dict.need id : ℕ) ≤ start.engine.limit where
  run := by
    intro k id f hdepth hget hcode
    rw [Dictionary.need_of_code_nil hget hcode]
    omega
  enter := by
    intro k id body hdepth hbody hcallees
    by_cases hlimit : 0 < start.engine.limit
    · have hneed : start.engine.dict.need id ≤ (start.engine.limit - k - 1).toNat + 1 := by
        refine Dictionary.need_le hbody fun callee hmem => ?_
        have := hcallees callee hmem
        omega
      have := hdepth hlimit
      omega
    · exact Or.inl (Int.not_lt.mp hlimit)

lemma fromCallees_endless (start : Machine) :
    FromCallees start fun _ id => ¬ start.engine.dict.Endless id where
  run := fun _ _ _ _ hget hcode => Dictionary.not_endless_of_code_nil hget hcode
  enter := by
    intro k id body _ hbody hcallees hend
    obtain ⟨callee, hmem, hcallee⟩ := hend.exists_callee hbody
    exact hcallees callee hmem hcallee

lemma toCallees_need (hstart : Sound start.engine) (n : ℕ) : ToCallees start fun k id =>
    k + start.engine.dict.need id ≤ n ∧ ¬ start.engine.dict.Endless id := by
  rintro k id body hbody ⟨hneed, hend⟩ callee hmem
  have hlt := Dictionary.need_callee_lt hbody hmem (hstart.callee_lt hbody hend hmem)
  exact ⟨by omega, Dictionary.not_endless_callee hend hbody hmem⟩

/-- **The limit of the return stack is exact.**  At the top level of a run of a new machine, a
finished word completes only if the return stack may be as deep as the word needs, and the return
stack overflows only if it may not.  An endless word never completes, whatever the limit is. -/
theorem call_depth_exact {m₀ : Machine} {settings : List Setting} (hnew : create settings = .ok m₀)
    (htop : TopLevel m₀ m) :
    (∀ id f, m.engine.dict.get? id = some f → f.code = [] → m.engine.dict.need id = 0) ∧
    (∀ id body, m.engine.dict.Finished id body → ¬ m.engine.dict.Endless id →
      m.engine.dict.need id = 1 + ((m.engine.dict.callees id).map m.engine.dict.need).foldr max 0) ∧
    ∀ w id f body, m.engine.mode = .execute → lookup? m.engine.dict w = some (id, f) →
      m.engine.dict.Finished id body →
      (¬ m.engine.dict.Endless id →
        (∀ m', Line dispatch [w] m .back m' → m.engine.limit ≤ 0 ∨
        m.engine.dict.need id ≤ m.engine.limit) ∧ ∀ u m', Line dispatch [w] m u m' →
        u.fault? = some .returnOverflow →
          0 < m.engine.limit ∧ m.engine.limit < m.engine.dict.need id) ∧
      (m.engine.dict.Endless id → ∀ m', ¬ Line dispatch [w] m .back m') := by
  obtain ⟨hm, hat⟩ := htop.isSound (fresh_create hnew).isSound
  refine ⟨fun id f => Dictionary.need_of_code_nil, fun id body => hm.engine.need_eq, ?_⟩
  intro w id f body hmode hlookup hbody
  cases hrunning : m.engine.running with
  | false =>
      have hexited : advance dispatch [w] m = .inr (.exited, m) := advance_stopped hrunning
      simp [line_iff_last hexited, Upshot.fault?]
  | true =>
      obtain ⟨m1, hamid, hcontrol, hadvance⟩ := exists_entered hm hat hmode hrunning hlookup hbody
      -- what follows from the callees of the word is true of the word, once it has completed
      have hcompletes :
          ∀ {Q : ℕ → FuncId → Prop} {m'}, FromCallees m Q → Line dispatch [w] m .back m' →
            Q 0 id := by
        intro Q m' hQ hline
        have hahead := ahead_of_back hQ ((line_iff hadvance).mp hline) hamid
        rw [hcontrol] at hahead
        exact hQ.enter 0 id body (fun hlimit => hlimit) hbody (hahead.calls (Spot.start hbody))
      refine ⟨fun hend => ⟨fun m' hline => ?_, fun u m' hline hu => ?_⟩, fun hend m' hline => ?_⟩
      · simpa using hcompletes (fromCallees_need m) hline
      · have hQ := toCallees_need hm.engine (m.engine.dict.need id)
        obtain ⟨k, id', body', hbody', ⟨hneed, -⟩, hlimit, hle⟩ :=
          exists_deep_of_overflow hQ ((line_iff hadvance).mp hline) hu hamid (by
            rw [hcontrol]
            exact .word (Spot.start hbody) (hQ 0 id body hbody ⟨by omega, hend⟩) (.top 0))
        have hpos := Dictionary.need_of_finished hbody'
        exact ⟨hlimit, by omega⟩
      · exact hcompletes (fromCallees_endless m) hline hend

/-- A word that calls another one needs two levels, and there is one. -/
theorem call_depth_exact_of_overflow :
    ∃ m₀ m, create [.written [] (.ok (utf8 ": a ; : b a ;\n")), .limit 1] = .ok m₀ ∧ TopLevel m₀ m ∧
      (∃ f, lookup? m.engine.dict (utf8 "b") = some (17, f)) ∧
      m.engine.dict.Finished 17 [.call 16] ∧ ¬ m.engine.dict.Endless 17 ∧
      m.engine.dict.need 17 = 2 ∧
      (∃ u m', Line dispatch [utf8 "b"] m u m' ∧ u.fault? = some .returnOverflow) ∧
      m.engine.limit < m.engine.dict.need 17 := by
  obtain ⟨m₀, hnew⟩ :
      ∃ m₀, create [.written [] (.ok (utf8 ": a ; : b a ;\n")), .limit 1] = .ok m₀ := ⟨_, rfl⟩
  obtain ⟨m1, hprompt, m2, hopen, m3, hclose, m4, hopen', m5, hword, m, hclose', ha, hb, hlookup,
      hmode, hm₀, hrunning, b1, hadvance, u, b2, hlast, hu⟩ :
      ∃ m1, step (m₀.indent true) = prompt m1 ∧ ∃ m2, read m1 = .ok true m2 ∧
        ∃ m3, read m2 = .ok true m3 ∧
      ∃ m4, read m3 = .ok true m4 ∧ ∃ m5, read m4 = .ok true m5 ∧ ∃ m, read m5 = .ok true m ∧
      m.engine.dict.Finished 16 [] ∧ m.engine.dict.Finished 17 [.call 16] ∧
      (∃ f, lookup? m.engine.dict (utf8 "b") = some (17, f)) ∧ m.engine.mode = .execute ∧
      ((m₀.indent true).engine.fn = bootId ∧ (m₀.indent true).engine.pc = -1 ∧
        Becomes (m₀.indent true) { (m₀.indent true).engine with pc := 0 } m1) ∧
      (m1.engine.running = true ∧ m2.engine.running = true ∧ m3.engine.running = true ∧
        m4.engine.running = true ∧ m5.engine.running = true) ∧
      ∃ b1, advance dispatch [utf8 "b"] m = .inl ([], b1) ∧
      ∃ u b2, advance dispatch [] b1 = .inr (u, b2) ∧ u.fault? = some .returnOverflow := by
    cases hnew
    refine ⟨_, rfl, _, read_of_word (w := utf8 ":") rfl ((dispatch_of_call rfl rfl rfl).trans
      (bind_of_ok (define_new (nextName_of_word rfl) rfl))), _, rfl, _,
      read_of_word (w := utf8 ":") rfl
        ((dispatch_of_call rfl rfl rfl).trans
          (bind_of_ok (define_new (nextName_of_word rfl) rfl))), ?_⟩
    iterate 2 refine ⟨_, rfl, ?_⟩
    refine ⟨⟨by decide, _, rfl, rfl⟩, ⟨by decide, _, rfl, rfl⟩, ⟨_, rfl⟩, rfl,
      ⟨rfl, rfl, rfl, rfl, rfl⟩, ⟨rfl, rfl, rfl, rfl, rfl⟩, ?_⟩
    exact ⟨_, rfl, _, _, rfl, rfl⟩
  have htop : TopLevel m₀ m :=
    ((((TopLevel.enter ⟨0, .background, _, rfl⟩ hm₀.1 hm₀.2.1 hm₀.2.2 hprompt).word
      hrunning.1 hopen).word hrunning.2.1 hclose).word hrunning.2.2.1 hopen').word
      hrunning.2.2.2.1 hword |>.word hrunning.2.2.2.2 hclose'
  have hend : ¬ m.engine.dict.Endless 16 := by
    intro hend
    obtain ⟨callee, hmem, -⟩ := hend.exists_callee ha
    cases hmem
  have hend' : ¬ m.engine.dict.Endless 17 := by
    intro h
    obtain ⟨callee, hmem, hcallee⟩ := h.exists_callee hb
    cases List.mem_singleton.mp hmem
    exact hend hcallee
  obtain ⟨-, hneed, hexact⟩ := call_depth_exact hnew htop
  obtain ⟨f, hf⟩ := hlookup
  have hline : Line dispatch [utf8 "b"] m u b2 := (line_iff hadvance).mpr (.last hlast)
  have hneed16 : m.engine.dict.need 16 = 1 := by rw [hneed 16 _ ha hend, ha.callees_eq]; rfl
  have hneed17 : m.engine.dict.need 17 = 1 + max (m.engine.dict.need 16) 0 := by
    rw [hneed 17 _ hb hend', hb.callees_eq]
    rfl
  rw [hneed16] at hneed17
  exact ⟨m₀, m, hnew, htop, ⟨f, hf⟩, hb, hend', hneed17, ⟨u, b2, hline, hu⟩,
    (((hexact _ _ _ _ hmode hf hb).1 hend').2 u b2 hline hu).2⟩

end Machine

end ColonMachine
