import ColonMachine.Proofs.Alike
import ColonMachine.Proofs.Definitions
import ColonMachine.Proofs.Termination
import Mathlib.Logic.Relation

/-!
# Compiling keeps the meaning

When `: f w₁ … wₙ ;` has been compiled without a diagnostic, a line that consists of `f` comes to
the same as the line `w₁ … wₙ` (`compiled_line`): it leaves the same data stack, dictionary, console
and running flag, and it ends in the same way.  Compiled numbers lose their high bits, so on the
direct line they have to be dispatched by `dispatchNarrow`.

* `Line` goes through the words of a line: while a word is being executed it executes instructions,
  and otherwise it dispatches the next word.
* The two lines are run side by side.  In between two words of the direct line, the other one is in
  between two instructions of `f`; within a word, both are at the same place of the same word, and
  the return stack of the one has the frame of `f` below (`Place`).  One instruction keeps them so
  (`marching`).

The one thing that tells them apart is that `f` takes up a level of the return stack.
-/

namespace ColonMachine

/-! ## Who calls whom -/

namespace Dictionary

variable {d : Dictionary} {id : FuncId}

def Calls (d : Dictionary) (id id' : FuncId) : Prop :=
  ∃ f callee, d.get? id = some f ∧ Item.operand .call callee ∈ (Code.items f.code).map (·.1) ∧
    Code.callee callee = id'

/-- The function `id` neither is `:` or `see`, nor leads to one of them by any chain of calls. -/
def Plain (d : Dictionary) (id : FuncId) : Prop :=
  ∀ id', Relation.ReflTransGen d.Calls id id' →
    d.find? (utf8 ":") ≠ some id' ∧ d.find? (utf8 "see") ≠ some id'

lemma calls_of_mem {body : List Instr} {callee : Code} (hbody : d.Finished id body)
    (hmem : Instr.call callee ∈ body) : d.Calls id (Code.callee callee) := by
  obtain ⟨-, f, hget, hcode⟩ := hbody
  refine ⟨f, callee, hget, ?_, rfl⟩
  rw [hcode, Instr.items_assemble]
  exact List.mem_append_left _ (List.mem_map.mpr ⟨_, hmem, rfl⟩)

lemma Plain.callee {body : List Instr} {callee : Code} (h : d.Plain id) (hbody : d.Finished id body)
    (hmem : Instr.call callee ∈ body) : d.Plain (Code.callee callee) :=
  fun id' hid' => h id' (.head (calls_of_mem hbody hmem) hid')

lemma plain_of_code_nil {f : Function} (hget : d.get? id = some f) (hcode : f.code = [])
    (hdefine : d.find? (utf8 ":") ≠ some id) (hsee : d.find? (utf8 "see") ≠ some id) :
    d.Plain id := by
  intro id' hreach
  rcases hreach.cases_head with rfl | ⟨_, ⟨g, callee, hget', hmem, -⟩, -⟩
  · exact ⟨hdefine, hsee⟩
  · rw [hget] at hget'
    cases hget'
    rw [hcode] at hmem
    cases hmem

end Dictionary

lemma Effect.unchanged {e e' : Engine} {p : Primitive} (h : Effect e p e') (hdefine : p ≠ .define)
    (hend : p ≠ .endDefine) : e'.dict = e.dict ∧ e'.mode = e.mode := by
  cases h with
  | opened => exact absurd rfl hdefine
  | refused => exact absurd rfl hdefine
  | closed => exact absurd rfl hend
  | _ => exact ⟨rfl, rfl⟩

namespace Machine

variable {take : Text → Act Bool} {m m' m1 a b a' b' a1 b1 : Machine} {f w : Text}
  {ws ws' : List Text} {d : Dictionary} {id target : FuncId} {g : Function}

/-! ## Going through a line -/

inductive Upshot where
  /-- Control is back in the top level loop, and the line is used up. -/
  | back
  | exited
  | recovered (what : Fault)
  /-- The session was broken off, perhaps while a fault was handled. -/
  | broken (during : Option Fault) (i : Interrupt)

def Upshot.fault? : Upshot → Option Fault
  | back | exited => none
  | recovered what => some what
  | broken during _ => during

/-- What is left of a line after an action. -/
def after {α : Type} (ws : List Text) : Result α → List Text × Machine ⊕ Upshot × Machine
  | .ok _ m => .inl (ws, m)
  | .error (.fault what) m =>
    match recover what m with
    | .ok _ m => .inr (.recovered what, m)
    | .error i m => .inr (.broken (some what) i, m)
  | .error i m => .inr (.broken none i, m)

/-- Does the next thing on a line: executes an instruction, or takes the next word. -/
def advance (take : Text → Act Bool) (ws : List Text) (m : Machine) :
    List Text × Machine ⊕ Upshot × Machine :=
  if !m.engine.running then .inr (.exited, m)
  else if m.engine.frames ≠ [] then after ws (step m)
  else
    match ws with
    | [] => .inr (.back, m)
    | w :: ws => after ws (take w m)

/-- From the top level, or from within a word, going through what is left of a line comes to an
end. -/
inductive Line (take : Text → Act Bool) : List Text → Machine → Upshot → Machine → Prop where
  | last {ws : List Text} {m m' : Machine} {u : Upshot} (h : advance take ws m = .inr (u, m')) :
      Line take ws m u m'
  | next {ws ws' : List Text} {m m1 m' : Machine} {u : Upshot}
      (h : advance take ws m = .inl (ws', m1)) (hrest : Line take ws' m1 u m') : Line take ws m u m'

/-- Dispatches a word, but of a number only the low 8 bits are pushed, as a signed value. -/
def dispatchNarrow (w : Text) : Act Bool := do
  match lookup? (← get).engine.dict w, w.readCell with
  | none, .ok n =>
    push n.toInt8.toInt32
    return true
  | _, _ => dispatch w

/-- What is to be compared: the data stack, the output, the dictionary and the running flag. -/
def seen (m : Machine) : Stack × Console × Dictionary × Bool :=
  (m.engine.stack, m.console, m.engine.dict, m.engine.running)

lemma Alike.seen (h : Alike a b) : a.seen = b.seen := by
  rw [Machine.seen, Machine.seen, h.stack, h.console, h.dict, h.running]

lemma advance_stopped (h : m.engine.running = false) : advance take ws m = .inr (.exited, m) := by
  simp [advance, h]

lemma advance_back (hrunning : m.engine.running = true) (hframes : m.engine.frames = []) :
    advance take [] m = .inr (.back, m) := by
  simp [advance, hrunning, hframes]

lemma advance_word (hrunning : m.engine.running = true) (hframes : m.engine.frames = []) :
    advance take (w :: ws) m = after ws (take w m) := by
  simp [advance, hrunning, hframes]

lemma advance_step (take : Text → Act Bool) (ws : List Text) (hrunning : m.engine.running = true)
    (hframes : m.engine.frames ≠ []) : advance take ws m = after ws (step m) := by
  simp [advance, hrunning, hframes]

lemma after_bind_pure {α β : Type} (act : Act α) (x : β) (m : Machine) :
    after ws ((act >>= fun _ => pure x) m) = after ws (act m) := by
  rw [bind_apply]
  cases act m with
  | ok _ m' => rfl
  | error i m' => cases i <;> rfl

/-- Two machines that are alike are interrupted alike. -/
lemma after_error (h : Alike a b) (i : Interrupt) (ws ws' : List Text) :
    ∃ u a' b', after ws (.error i a : Result Unit) = .inr (u, a') ∧
      after ws' (.error i b : Result Unit) = .inr (u, b') ∧ Alike a' b' := by
  cases i with
  | fault what =>
      have hsame := parallel_recover what a b h
      rw [after, after]
      generalize recover what a = ra at hsame ⊢
      generalize recover what b = rb at hsame ⊢
      cases hsame with
      | ok _ h => exact ⟨_, _, _, rfl, rfl, h⟩
      | error i h => exact ⟨_, _, _, rfl, rfl, h⟩
  | _ => exact ⟨_, _, _, rfl, rfl, h⟩

lemma after_fault (ws : List Text) (what : Fault) (m : Machine) :
    ∃ u m', after ws (.error (.fault what) m : Result Unit) = .inr (u, m') ∧
      u.fault? = some what := by
  rw [after]
  cases recover what m with
  | ok _ m' => exact ⟨_, _, rfl, rfl⟩
  | error i m' => exact ⟨_, _, rfl, rfl⟩

/-! ## Words and instructions -/

/-- On a machine with the dictionary `d`, taking the word does what the instruction does. -/
def Performs (take : Text → Act Bool) (d : Dictionary) (w : Text) (i : Instr) : Prop :=
  ∀ m : Machine, m.engine.dict = d → m.engine.mode = .execute →
    match i with
    | .push n =>
      take w m
        = .ok true { m with engine := { m.engine with stack := n.toInt32 :: m.engine.stack } }
    | .call callee => ∃ more, take w m = (call (Code.callee callee) >>= fun _ => pure more) m

lemma callee_of_lookup? (hlookup : lookup? d w = some (id, g)) (hid : id ≤ maxCallId) :
    Code.callee (Code.ofCallee id) = id :=
  callee_ofCallee (Dictionary.bounds_of_get? (get?_of_lookup? hlookup).1).1 hid

lemma performs_dispatchNarrow {i : Instr} (h : Translates d w i) :
    Performs dispatchNarrow d w i := by
  intro m hdict hmode
  have hnarrow : dispatchNarrow w m = (match lookup? m.engine.dict w, w.readCell with
      | none, .ok n => do
        push n.toInt8.toInt32
        return true
      | _, _ => dispatch w : Act Bool) m := rfl
  cases h with
  | call hlookup himmediate hid =>
      rw [← hdict] at hlookup
      simp only [hlookup] at hnarrow
      exact ⟨_, by rw [hnarrow, callee_of_lookup? hlookup hid,
        dispatch_of_call hlookup himmediate hmode]⟩
  | push hlookup hread =>
      rw [← hdict] at hlookup
      simp only [hlookup, hread] at hnarrow
      exact hnarrow

/-- If a number keeps its value when it is compiled, an ordinary dispatch will do. -/
lemma performs_dispatch {i : Instr} (h : Translates d w i)
    (hnarrow : ∀ n, lookup? d w = none → w.readCell = .ok n → n.toInt8.toInt32 = n) :
    Performs dispatch d w i := by
  intro m hdict hmode
  cases h with
  | call hlookup himmediate hid =>
      rw [← hdict] at hlookup
      exact ⟨_, by rw [callee_of_lookup? hlookup hid, dispatch_of_call hlookup himmediate hmode]⟩
  | @push n hlookup hread =>
      have hvalue := hnarrow n hlookup hread
      rw [← hdict] at hlookup
      change dispatch w m = .ok true { m with engine := { m.engine with
        stack := n.toInt8.toInt32 :: m.engine.stack } }
      rw [hvalue]
      exact dispatch_of_number hlookup hread hmode

/-! ## Side by side -/

/-- Where the line of `f` and the direct line stand, with `ws` left of the direct line. -/
inductive Place (take : Text → Act Bool) (d : Dictionary) (target : FuncId) :
    List Text → Control → Control → Prop where
  | between {ws : List Text} {pc : ℤ} {past rest : List Instr} (hspot : Spot d target pc past rest)
      (hws : List.Forall₂ (Performs take d) ws rest) :
      Place take d target ws ⟨target, pc, [⟨bootId, 0⟩]⟩ onPrompt
  | within {ws : List Text} {pc : ℤ} {past rest : List Instr} (hspot : Spot d target pc past rest)
      (hws : List.Forall₂ (Performs take d) ws rest) (fn : FuncId) (pc' : ℤ) (inner : List Frame) :
      Place take d target ws ⟨fn, pc', inner ++ [⟨target, pc⟩, ⟨bootId, 0⟩]⟩
        ⟨fn, pc', inner ++ [⟨bootId, 0⟩]⟩

structure Beside (take : Text → Act Bool) (d : Dictionary) (target : FuncId) (ws : List Text)
    (a b : Machine) : Prop where
  sound : a.IsSound
  tidy : b.input.Tidy
  alike : Alike a b
  dict : a.engine.dict = d
  mode : a.engine.mode = .execute
  plain : ∀ id ∈ a.engine.fn :: a.engine.frames.map (·.fn), id = bootId ∨ d.Plain id
  place : Place take d target ws a.engine.control b.engine.control

/-- What the next thing is that happens on both lines. -/
inductive Marching (take : Text → Act Bool) (d : Dictionary) (target : FuncId) (ws : List Text)
    (a b : Machine) : Prop where
  | on {ws' : List Text} {a' b' : Machine} (ha : advance dispatch [] a = .inl ([], a'))
      (hb : advance take ws b = .inl (ws', b')) (h : Beside take d target ws' a' b')
  /-- The direct line is used up, and `f` returns. -/
  | back {a' : Machine} (ha : advance dispatch [] a = .inl ([], a'))
      (ha' : advance dispatch [] a' = .inr (.back, a')) (hb : advance take ws b = .inr (.back, b))
      (h : Alike a' b)
  /-- Both end in the same way. -/
  | ended {u : Upshot} {a' b' : Machine} (ha : advance dispatch [] a = .inr (u, a'))
      (hb : advance take ws b = .inr (u, b')) (h : Alike a' b')
  /-- The return stack of the line of `f` is full. -/
  | deep {u : Upshot} {a' : Machine} (ha : advance dispatch [] a = .inr (u, a'))
      (hu : u.fault? = some .returnOverflow)

lemma Place.enter {c c' : Control} (h : Place take d target ws c c') (id : FuncId) :
    Place take d target ws ⟨id, -1, ⟨c.fn, c.pc⟩ :: c.frames⟩
      ⟨id, -1, ⟨c'.fn, c'.pc⟩ :: c'.frames⟩ := by
  cases h with
  | between hspot hws => exact .within hspot hws id (-1) []
  | within hspot hws fn pc' inner => exact .within hspot hws id (-1) (⟨fn, pc'⟩ :: inner)

/-- Out of the innermost word: into another one, or to `f` on the one line and to the top level on
the other. -/
lemma Place.leave {pc : ℤ} {past rest : List Instr} (hspot : Spot d target pc past rest)
    (hws : List.Forall₂ (Performs take d) ws rest) (inner : List Frame) :
    ∃ frame frames frame' frames', inner ++ [⟨target, pc⟩, ⟨bootId, 0⟩] = frame :: frames ∧
      inner ++ [⟨bootId, 0⟩] = frame' :: frames' ∧
      Place take d target ws ⟨frame.fn, frame.pc, frames⟩ ⟨frame'.fn, frame'.pc, frames'⟩ := by
  cases inner with
  | nil => exact ⟨_, _, _, _, rfl, rfl, .between hspot hws⟩
  | cons frame inner => exact ⟨_, _, _, _, rfl, rfl, .within hspot hws frame.fn frame.pc inner⟩

lemma Place.length_le {c c' : Control} (h : Place take d target ws c c') :
    c'.frames.length ≤ c.frames.length := by
  cases h with
  | between => simp [onPrompt]
  | within => simp

/-- Moving both lines to other places, with a new data stack. -/
lemma Beside.moved (h : Beside take d target ws a b) (c c' : Control) {s s' : Stack} (hs : s = s')
    (ha : Becomes a { a.engine with fn := c.fn, pc := c.pc, frames := c.frames, stack := s } a')
    (hb : Becomes b { b.engine with fn := c'.fn, pc := c'.pc, frames := c'.frames, stack := s' } b')
    (hsound : a'.IsSound) (hplain : ∀ id ∈ c.fn :: c.frames.map (·.fn), id = bootId ∨ d.Plain id)
    (hplace : Place take d target ws' c c') : Beside take d target ws' a' b' where
  sound := hsound
  tidy := by rw [hb.input]; exact h.tidy
  alike := h.alike.moved c c' hs ha hb
  dict := by rw [ha.engine]; exact h.dict
  mode := by rw [ha.engine]; exact h.mode
  plain := by rw [ha.engine]; exact hplain
  place := by rw [ha.engine, hb.engine]; exact hplace

/-- Both lines run the same primitive.  It goes nowhere in the code, so that they stay where they
are. -/
lemma marching_primitive {p : Primitive} (ha : advance dispatch [] a = after [] (primitive p a1))
    (hb : advance take ws b = after ws' (primitive p b1)) (h : Beside take d target ws' a1 b1)
    (hsound : ∀ a', primitive p a1 = .ok () a' → a'.IsSound) (hdefine : p ≠ .define)
    (hend : p ≠ .endDefine) (hsee : p ≠ .see) : Marching take d target ws a b := by
  have heffecta := primitive_effect p a1 h.sound.input
  have heffectb := primitive_effect p b1 h.tidy
  have hsame := parallel_primitive hdefine hend hsee a1 b1 h.alike
  generalize hra : primitive p a1 = ra at hsame
  generalize hrb : primitive p b1 = rb at hsame
  cases hsame with
  | @ok _ a' b' hlike =>
      obtain ⟨heffecta, -⟩ := heffecta.of_ok hra
      obtain ⟨heffectb, htidy⟩ := heffectb.of_ok hrb
      obtain ⟨hdict, hmode⟩ := heffecta.unchanged hdefine hend
      refine .on (ha.trans (by rw [hra]; rfl)) (hb.trans (by rw [hrb]; rfl))
        ⟨hsound a' hra, htidy, hlike, hdict.trans h.dict, hmode.trans h.mode, ?_, ?_⟩
      · rw [show a'.engine.fn = a1.engine.fn from congrArg Control.fn heffecta.control,
          show a'.engine.frames = a1.engine.frames from congrArg Control.frames heffecta.control]
        exact h.plain
      · rw [heffecta.control, heffectb.control]
        exact h.place
  | error i hlike =>
      obtain ⟨u, a', b', hafter, hafter', hlike⟩ := after_error hlike i [] ws'
      exact .ended (ha.trans (by rw [hra, hafter])) (hb.trans (by rw [hrb, hafter'])) hlike

/-- Both lines enter the same word, unless the return stack of the line of `f` is full.  That of the
direct line is not full before. -/
lemma marching_word {body : List Instr} (ha : advance dispatch [] a = after [] (call id a1))
    (hb : advance take ws b = after ws' (call id b1)) (h : Beside take d target ws' a1 b1)
    (hsound : ∀ a', call id a1 = .ok () a' → a'.IsSound) (hbody : a1.engine.dict.Finished id body)
    (hplain : d.Plain id) : Marching take d target ws a b := by
  by_cases hfull : a1.engine.Full
  · obtain ⟨u, a', hafter, hu⟩ := after_fault [] .returnOverflow a1
    exact .deep (ha.trans (by rw [call_full hbody hfull, hafter])) hu
  · have hfull' : ¬ b1.engine.Full := by
      rintro ⟨hpos, hlength⟩
      rw [← h.alike.limit] at hpos hlength
      have hle : b1.engine.frames.length ≤ a1.engine.frames.length := h.place.length_le
      exact hfull ⟨hpos, by omega⟩
    have hbody' : b1.engine.dict.Finished id body := by rw [← h.alike.dict]; exact hbody
    obtain ⟨a', ha', hcalla⟩ := call_word hbody hfull
    obtain ⟨b', hb', hcallb⟩ := call_word hbody' hfull'
    refine .on (ha.trans (by rw [hcalla]; rfl)) (hb.trans (by rw [hcallb]; rfl)) ?_
    refine h.moved (a1.engine.entered id).control (b1.engine.entered id).control h.alike.stack
      ha' hb' (hsound a' hcalla) ?_ (h.place.enter id)
    intro id' hid'
    rcases List.mem_cons.mp hid' with rfl | hmem
    · exact Or.inr hplain
    · exact h.plain id' hmem

lemma marching_callable (ha : advance dispatch [] a = after [] (call id a1))
    (hb : advance take ws b = after ws' (call id b1)) (h : Beside take d target ws' a1 b1)
    (hsound : ∀ a', call id a1 = .ok () a' → a'.IsSound)
    (hget : a1.engine.dict.get? id = some g) (hcall : Callable a1.engine.dict id g)
    (hplain : d.Plain id) (hend : id ≠ endDefineId) : Marching take d target ws a b := by
  have hget' : b1.engine.dict.get? id = some g := by rw [← h.alike.dict, hget]
  cases hcall with
  | primitive p hcode hnative hp =>
      obtain ⟨hdefine, hsee⟩ := h.sound.engine.find?_reader hget hnative
      rw [h.dict] at hdefine hsee
      rw [call_primitive hget hcode hnative] at ha hsound
      rw [call_primitive hget' hcode hnative] at hb
      -- `:` and `see` read the rest of the line, which is not the same on both
      exact marching_primitive ha hb h hsound (fun heq => (hplain id .refl).1 (hdefine heq))
        (fun heq => hend (hp heq)) (fun heq => (hplain id .refl).2 (hsee heq))
  | empty hcode hnative =>
      exact .on (ha.trans (by rw [call_empty hget hcode hnative]; rfl))
        (hb.trans (by rw [call_empty hget' hcode hnative]; rfl)) h
  | word body _ hbody => exact marching_word ha hb h hsound hbody hplain

/-- The line of `f` executes a call, and the direct line calls the same function from `c`. -/
lemma marching_call {past rest : List Instr} {callee : Code} {c : Control}
    (h : Beside take d target ws a b) (hrunning : a.engine.running = true)
    (hspot : Spot a.engine.dict a.engine.fn a.engine.pc past (.call callee :: rest))
    (hb1 : Becomes b { b.engine with fn := c.fn, pc := c.pc, frames := c.frames } b1)
    (hb : advance take ws b = after ws' (call (Code.callee callee) b1))
    (hplace : Place take d target ws' ⟨a.engine.fn, a.engine.pc + 2, a.engine.frames⟩ c) :
    Marching take d target ws a b := by
  have hopen := h.sound.engine.untouched_of_execute h.mode
  have hactive := h.sound.engine.active.move hspot.next
  obtain ⟨a1, ha1, hstep⟩ := step_call hspot
  obtain ⟨f, hget, hcall, hend⟩ := h.sound.engine.callee hspot hopen
  have hsound := ha1.isSound h.sound
    (h.sound.engine.moved (Or.inr hopen) hactive h.sound.engine.depth)
  have hplain : d.Plain (Code.callee callee) := by
    rcases h.plain _ List.mem_cons_self with hboot | hplain
    · exact absurd hboot hspot.finished.ne_boot
    · exact hplain.callee (by rw [← h.dict]; exact hspot.finished) (by simp)
  have hbeside : Beside take d target ws' a1 b1 :=
    h.moved ⟨a.engine.fn, a.engine.pc + 2, a.engine.frames⟩ c h.alike.stack ha1 hb1 hsound h.plain
      hplace
  have hdict : a1.engine.dict = a.engine.dict := by rw [ha1.engine]
  rw [← hdict] at hget hcall
  refine marching_callable ?_ hb hbeside ?_ hget hcall hplain hend
  · rw [advance_step _ _ hrunning (h.sound.engine.active.frames_ne_nil hspot), hstep]
  · intro a' hok
    exact (isSound_step h.sound).of_ok (hstep.trans hok)

lemma becomes_at {c : Control} (h : m.engine.control = c) :
    Becomes m { m.engine with fn := c.fn, pc := c.pc, frames := c.frames } m := by
  subst h
  exact ⟨rfl, rfl, rfl⟩

/-- In between two words of the direct line. -/
lemma marching_between {pc : ℤ} {past rest : List Instr} (h : Beside take d target ws a b)
    (hrunning : a.engine.running = true) (hspot : Spot d target pc past rest)
    (hws : List.Forall₂ (Performs take d) ws rest)
    (hca : a.engine.control = ⟨target, pc, [⟨bootId, 0⟩]⟩) (hcb : b.engine.control = onPrompt) :
    Marching take d target ws a b := by
  have hrunning' : b.engine.running = true := by rw [← h.alike.running, hrunning]
  have hfn : a.engine.fn = target := congrArg Control.fn hca
  have hpc : a.engine.pc = pc := congrArg Control.pc hca
  have hframes : a.engine.frames = [⟨bootId, 0⟩] := congrArg Control.frames hca
  have hframes' : b.engine.frames = [] := congrArg Control.frames hcb
  have hspota : Spot a.engine.dict a.engine.fn a.engine.pc past rest := by
    rw [h.dict, hfn, hpc]
    exact hspot
  have hadvance := advance_step dispatch [] hrunning
    (h.sound.engine.active.frames_ne_nil hspota)
  cases hws with
  | nil =>
      obtain ⟨a', ha', hstep⟩ := step_return hspota hframes
      refine .back (hadvance.trans (by rw [hstep]; rfl)) (advance_back ?_ ?_)
        (advance_back hrunning' hframes') ?_
      · rw [ha'.engine]
        exact hrunning
      · rw [ha'.engine]
      · exact h.alike.moved onPrompt onPrompt h.alike.stack ha' (becomes_at hcb)
  | @cons w i ws rest hi hws =>
      have htake := hi b (by rw [← h.alike.dict, h.dict]) (by rw [← h.alike.mode, h.mode])
      have hnext :
          Place take d target ws ⟨a.engine.fn, a.engine.pc + 2, a.engine.frames⟩ onPrompt := by
        rw [hfn, hpc, hframes]
        exact .between hspot.next hws
      cases i with
      | push n =>
          obtain ⟨a', ha', hstep⟩ := step_push hspota
          -- the direct line pushes the number without going into any word
          refine .on (hadvance.trans (by rw [hstep]; rfl))
            (by rw [advance_word hrunning' hframes', htake]; rfl)
            (h.moved ⟨a.engine.fn, a.engine.pc + 2, a.engine.frames⟩ b.engine.control
              (by rw [h.alike.stack]) ha' (becomes_engine b _) ((isSound_step h.sound).of_ok hstep)
              h.plain ?_)
          rw [hcb]
          exact hnext
      | call callee =>
          obtain ⟨more, htake⟩ := htake
          refine marching_call h hrunning hspota (becomes_at hcb) ?_ hnext
          rw [advance_word hrunning' hframes', htake, after_bind_pure]

/-- Within a word of the direct line. -/
lemma marching_within {pc pc' : ℤ} {past rest : List Instr} {fn : FuncId} {inner : List Frame}
    (h : Beside take d target ws a b) (hrunning : a.engine.running = true)
    (hspot : Spot d target pc past rest) (hws : List.Forall₂ (Performs take d) ws rest)
    (hca : a.engine.control = ⟨fn, pc', inner ++ [⟨target, pc⟩, ⟨bootId, 0⟩]⟩)
    (hcb : b.engine.control = ⟨fn, pc', inner ++ [⟨bootId, 0⟩]⟩) :
    Marching take d target ws a b := by
  have hrunning' : b.engine.running = true := by rw [← h.alike.running, hrunning]
  have hframes : a.engine.frames = inner ++ [⟨target, pc⟩, ⟨bootId, 0⟩] :=
    congrArg Control.frames hca
  have hframes' : b.engine.frames = inner ++ [⟨bootId, 0⟩] := congrArg Control.frames hcb
  have hfn : b.engine.fn = a.engine.fn :=
    (congrArg Control.fn hcb).trans (congrArg Control.fn hca).symm
  have hpc : b.engine.pc = a.engine.pc :=
    (congrArg Control.pc hcb).trans (congrArg Control.pc hca).symm
  obtain ⟨past', rest', hspota⟩ : ∃ past' rest',
      Spot a.engine.dict a.engine.fn a.engine.pc past' rest' := by
    rcases h.sound.engine.active.inv with ⟨-, hnil, -⟩ | ⟨past', rest', _, _, hspota, -, -⟩
    · rw [hframes] at hnil
      simp at hnil
    · exact ⟨past', rest', hspota⟩
  have hspotb : Spot b.engine.dict b.engine.fn b.engine.pc past' rest' := by
    rw [← h.alike.dict, hfn, hpc]
    exact hspota
  have hadvance := advance_step dispatch [] hrunning
    (h.sound.engine.active.frames_ne_nil hspota)
  have hadvance' := advance_step take ws hrunning'
    (by rw [hframes']; simp)
  have hnext : Place take d target ws ⟨a.engine.fn, a.engine.pc + 2, a.engine.frames⟩
      ⟨b.engine.fn, b.engine.pc + 2, b.engine.frames⟩ := by
    rw [hfn, hpc, hframes, hframes']
    exact .within hspot hws _ _ inner
  rcases rest' with _ | ⟨callee | n, rest'⟩
  · obtain ⟨frame, frames, frame', frames', hinner, hinner', hplace⟩ := Place.leave hspot hws inner
    rw [hinner] at hframes
    rw [hinner'] at hframes'
    obtain ⟨a', ha', hstep⟩ := step_return hspota hframes
    obtain ⟨b', hb', hstep'⟩ := step_return hspotb hframes'
    refine .on (hadvance.trans (by rw [hstep]; rfl)) (hadvance'.trans (by rw [hstep']; rfl))
      (h.moved _ _ h.alike.stack ha' hb' ((isSound_step h.sound).of_ok hstep) ?_ hplace)
    intro id hid
    exact h.plain id (List.mem_cons_of_mem _ (by rw [hframes]; exact hid))
  · obtain ⟨b1, hb1, hstep⟩ := step_call hspotb
    refine marching_call h hrunning hspota hb1 ?_ hnext
    rw [hadvance', hstep]
  · obtain ⟨a', ha', hstep⟩ := step_push hspota
    obtain ⟨b', hb', hstep'⟩ := step_push hspotb
    exact .on (hadvance.trans (by rw [hstep]; rfl)) (hadvance'.trans (by rw [hstep']; rfl))
      (h.moved _ _ (by rw [h.alike.stack]) ha' hb' ((isSound_step h.sound).of_ok hstep)
        h.plain hnext)

/-- **The step lemma.**  The lines stay side by side, or end together, unless the return stack of
the line of `f` is full. -/
lemma marching (h : Beside take d target ws a b) : Marching take d target ws a b := by
  cases hrunning : a.engine.running with
  | false =>
      have hrunning' : b.engine.running = false := by rw [← h.alike.running, hrunning]
      exact .ended (advance_stopped hrunning) (advance_stopped hrunning') h.alike
  | true =>
      have hplace := h.place
      generalize hca : a.engine.control = ca at hplace
      generalize hcb : b.engine.control = cb at hplace
      cases hplace with
      | between hspot hws => exact marching_between h hrunning hspot hws hca hcb
      | within hspot hws fn pc' inner => exact marching_within h hrunning hspot hws hca hcb

/-! ## Whole lines -/

variable {u u' : Upshot}

lemma line_iff (h : advance take ws m = .inl (ws', m1)) :
    Line take ws m u m' ↔ Line take ws' m1 u m' := by
  refine ⟨?_, .next h⟩
  rintro (hlast | ⟨hnext, hrest⟩)
  · rw [h] at hlast
    cases hlast
  · rw [h] at hnext
    cases hnext
    exact hrest

lemma line_iff_last (h : advance take ws m = .inr (u', m1)) :
    Line take ws m u m' ↔ u = u' ∧ m' = m1 := by
  constructor
  · rintro (hlast | ⟨hnext, -⟩)
    · rw [h] at hlast
      cases hlast
      exact ⟨rfl, rfl⟩
    · rw [h] at hnext
      cases hnext
  · rintro ⟨rfl, rfl⟩
    exact .last h

/-- **The run lemma**, from the line of `f` to the direct line. -/
lemma line_of_beside (ha : Line dispatch [] a u a') (h : Beside take d target ws a b)
    (hdepth : u.fault? ≠ some .returnOverflow) : ∃ b', Line take ws b u b' ∧ a'.seen = b'.seen := by
  -- the induction is on the line of `f`, on which there is nothing left to be dispatched
  generalize hnil : ([] : List Text) = none' at ha
  induction ha generalizing b ws with
  | last hlast =>
      subst hnil
      cases marching h with
      | on ha hb h' => rw [ha] at hlast; cases hlast
      | back ha ha' hb hlike => rw [ha] at hlast; cases hlast
      | ended ha hb hlike =>
          rw [ha] at hlast
          cases hlast
          exact ⟨_, .last hb, hlike.seen⟩
      | deep ha hu =>
          rw [ha] at hlast
          cases hlast
          exact absurd hu hdepth
  | next hnext hrest ih =>
      subst hnil
      cases marching h with
      | on ha hb h' =>
          rw [ha] at hnext
          cases hnext
          obtain ⟨b', hline, hseen⟩ := ih h' hdepth rfl
          exact ⟨b', .next hb hline, hseen⟩
      | back ha ha' hb hlike =>
          rw [ha] at hnext
          cases hnext
          obtain ⟨rfl, rfl⟩ := (line_iff_last ha').mp hrest
          exact ⟨_, .last hb, hlike.seen⟩
      | ended ha hb hlike => rw [ha] at hnext; cases hnext
      | deep ha hu => rw [ha] at hnext; cases hnext

/-- **The run lemma**, from the direct line to the line of `f`. -/
lemma beside_of_line (hb : Line take ws b u b') (h : Beside take d target ws a b)
    (hdepth : ∀ u a', Line dispatch [] a u a' → u.fault? ≠ some .returnOverflow) :
    ∃ a', Line dispatch [] a u a' ∧ a'.seen = b'.seen := by
  -- on the direct line now; that the other one overflows is excluded whatever `u` is
  induction hb generalizing a with
  | last hlast =>
      cases marching h with
      | on ha hb h' => rw [hb] at hlast; cases hlast
      | back ha ha' hb hlike =>
          rw [hb] at hlast
          cases hlast
          exact ⟨_, .next ha (.last ha'), hlike.seen⟩
      | ended ha hb hlike =>
          rw [hb] at hlast
          cases hlast
          exact ⟨_, .last ha, hlike.seen⟩
      | deep ha hu => exact absurd hu (hdepth _ _ (.last ha))
  | next hnext hrest ih =>
      cases marching h with
      | on ha hb h' =>
          rw [hb] at hnext
          cases hnext
          obtain ⟨a', hline, hseen⟩ := ih h' fun u a' hline => hdepth u a' (.next ha hline)
          exact ⟨a', .next ha hline, hseen⟩
      | back ha ha' hb hlike => rw [hb] at hnext; cases hnext
      | ended ha hb hlike => rw [hb] at hnext; cases hnext
      | deep ha hu => exact absurd hu (hdepth _ _ (.last ha))

/-- With a limit on the return stack, there is an end to what a word does. -/
lemma exists_line (hm : m.IsSound) (hlimit : 0 < m.engine.limit) :
    ∃ u m', Line take [] m u m' := by
  induction m using wellFounded_descends.induction with
  | _ m ih =>
      cases hrunning : m.engine.running with
      | false => exact ⟨_, _, .last (advance_stopped hrunning)⟩
      | true =>
          by_cases hframes : m.engine.frames = []
          · exact ⟨_, _, .last (advance_back hrunning hframes)⟩
          have hadvance := advance_step take [] hrunning hframes
          cases hstep : step m with
          | ok _ m1 =>
              obtain ⟨hlimit1, hless⟩ := (descends_step hm hlimit hrunning).of_ok hstep
              obtain ⟨u, m', hline⟩ := ih m1 hless ((isSound_step hm).of_ok hstep)
                (by rw [hlimit1]; exact hlimit)
              exact ⟨u, m', .next (hadvance.trans (by rw [hstep]; rfl)) hline⟩
          | error i m1 =>
              obtain ⟨u, m', -, hafter, -, -⟩ := after_error (alike_refl m1) i [] []
              exact ⟨u, m', .last (hadvance.trans (by rw [hstep, hafter]))⟩

lemma exists_word_of_mem {body : List Instr} {i : Instr}
    (h : List.Forall₂ (Translates d) ws body) (hi : i ∈ body) : ∃ w ∈ ws, Translates d w i := by
  induction h with
  | nil => cases hi
  | @cons w j _ _ hj _ ih =>
      rcases List.mem_cons.mp hi with rfl | hmem
      · exact ⟨w, List.mem_cons_self, hj⟩
      · obtain ⟨w', hw', htranslates⟩ := ih hmem
        exact ⟨w', List.mem_cons_of_mem _ hw', htranslates⟩

/-- A word whose body was compiled from plain words is plain. -/
lemma plain_of_compiled {body : List Instr} (hm : Sound m.engine)
    (hbody : m.engine.dict.Finished id body)
    (hws : List.Forall₂ (Translates m.engine.dict) ws body)
    (hplain : ∀ w ∈ ws, ∀ id', m.engine.dict.find? w = some id' → m.engine.dict.Plain id') :
    m.engine.dict.Plain id := by
  intro id' hreach
  rcases hreach.cases_head with rfl | ⟨next, ⟨g, callee, hget, hmem, rfl⟩, hrest⟩
  · exact ⟨hm.find?_ne_word (by decide) hbody.1, hm.find?_ne_word (by decide) hbody.1⟩
  · -- the first function on the way is one that a word of `ws` stands for
    obtain ⟨-, g', hget', hcode⟩ := hbody
    rw [hget] at hget'
    cases hget'
    rw [hcode, Instr.items_assemble] at hmem
    have hcall : Instr.call callee ∈ body := by
      rcases List.mem_append.mp hmem with hmem | hmem
      · obtain ⟨i, hi, hitem⟩ := List.mem_map.mp hmem
        cases i <;> cases hitem
        exact hi
      · cases List.mem_singleton.mp hmem
    obtain ⟨w, hw, htranslates⟩ := exists_word_of_mem hws hcall
    cases htranslates with
    | call hlookup _ hid =>
        rw [callee_of_lookup? hlookup hid] at hrest
        exact hplain w hw _ (lookup?_eq_some.mp hlookup).1 id' hrest

/-- Dispatching a word that has been compiled from `ws`. -/
lemma beside_of_compiled (h : Compiled f ws m)
    (hplain : ∀ w ∈ ws, ∀ id, m.engine.dict.find? w = some id → m.engine.dict.Plain id)
    (htake : ∀ body, List.Forall₂ (Translates m.engine.dict) ws body →
      List.Forall₂ (Performs take m.engine.dict) ws body) :
    ∃ id m1, advance dispatch [f] m = .inl ([], m1) ∧ Beside take m.engine.dict id ws m1 m := by
  obtain ⟨hm, hat, hrunning, hmode, id, g, body, hlookup, himmediate, hbody, hws⟩ := h
  have hframes : m.engine.frames = [] := congrArg Control.frames hat
  obtain ⟨hget, hname⟩ := get?_of_lookup? hlookup
  have hfull : ¬ m.engine.Full := by
    rintro ⟨hpos, hlength⟩
    rw [hframes, List.length_nil] at hlength
    omega
  obtain ⟨m1, hm1, hcall⟩ := call_word hbody hfull
  have hentered : (m.engine.entered id).control = ⟨id, -1, [⟨bootId, 0⟩]⟩ :=
    congrArg (fun c : Control => Control.mk id (-1) (⟨c.fn, c.pc⟩ :: c.frames)) hat
  have hdispatch := dispatch_of_call hlookup himmediate hmode
  have hword : f.IsWord := by
    rw [← hname]
    exact (hm.engine.words id g hbody.1 hget).name
  have hsound := ((isSound_dispatch hm hat hword).of_ok (hdispatch.trans (bind_of_ok hcall))).1
  refine ⟨id, m1, ?_, hsound, hm.input, ?_, ?_, ?_, ?_, ?_⟩
  · rw [advance_word hrunning hframes, hdispatch, after_bind_pure, hcall]
    rfl
  · exact (alike_refl m).moved (m.engine.entered id).control m.engine.control rfl hm1
      ⟨rfl, rfl, rfl⟩
  · rw [hm1.engine]
    rfl
  · rw [hm1.engine, ← hmode]
    rfl
  · rw [hm1.engine]
    intro id' hid'
    rcases List.mem_cons.mp hid' with rfl | hmem
    · exact Or.inr (plain_of_compiled hm.engine hbody hws hplain)
    · have hframe : (m.engine.entered id).frames = [⟨bootId, 0⟩] := congrArg Control.frames hentered
      rw [hframe] at hmem
      exact Or.inl (List.mem_singleton.mp hmem)
  · rw [hm1.engine, hentered, hat]
    exact .between (Spot.start hbody) (htake body hws)

lemma line_of_compiled (h : Compiled f ws m)
    (hplain : ∀ w ∈ ws, ∀ id, m.engine.dict.find? w = some id → m.engine.dict.Plain id)
    (htake : ∀ body, List.Forall₂ (Translates m.engine.dict) ws body →
      List.Forall₂ (Performs take m.engine.dict) ws body)
    (hdepth : ∀ u m', Line dispatch [f] m u m' → u.fault? ≠ some .returnOverflow)
    (s : Stack × Console × Dictionary × Bool) :
    (∃ m', Line dispatch [f] m u m' ∧ m'.seen = s) ↔ ∃ m', Line take ws m u m' ∧ m'.seen = s := by
  obtain ⟨id, m1, hadvance, hbeside⟩ := beside_of_compiled h hplain htake
  simp only [line_iff hadvance] at hdepth ⊢
  constructor
  · rintro ⟨a, hline, rfl⟩
    obtain ⟨b, hline', hseen⟩ := line_of_beside hline hbeside (hdepth u a hline)
    exact ⟨b, hline', hseen.symm⟩
  · rintro ⟨b, hline, rfl⟩
    exact beside_of_line hline hbeside hdepth

lemma toInt32_toInt8 {n : Int32} (hlow : -128 ≤ n.toInt) (hhigh : n.toInt ≤ 127) :
    n.toInt8.toInt32 = n := by
  rw [← Int32.toInt_inj, Int8.toInt_toInt32, Int32.toInt_toInt8,
    Int.bmod_eq_of_le (by omega) (by omega)]

lemma forall₂_performs_dispatch {body : List Instr} (h : List.Forall₂ (Translates d) ws body)
    (hrange : ∀ w ∈ ws, ∀ n, lookup? d w = none → w.readCell = .ok n →
      -128 ≤ n.toInt ∧ n.toInt ≤ 127) : List.Forall₂ (Performs dispatch d) ws body := by
  induction h with
  | nil => exact .nil
  | @cons w _ _ _ hi _ ih =>
      refine .cons (performs_dispatch hi ?_)
        (ih fun w' hw' => hrange w' (List.mem_cons_of_mem _ hw'))
      intro n hlookup hread
      obtain ⟨hlow, hhigh⟩ := hrange w List.mem_cons_self n hlookup hread
      exact toInt32_toInt8 hlow hhigh

/-- **Compiling keeps the meaning.**  A line that consists of a compiled word ends in the same way
as the words it was compiled from, each number cut down to its low 8 bits, and leaves the same
behind; numbers that fit need not be cut down.  If the return stack is limited, the line does come
to an end. -/
theorem compiled_line {settings : List Setting} {m₀ m1 m : Machine} {f : Text} {ws : List Text}
    (hnew : create settings = .ok m₀) (htop : TopLevel m₀ m1) (hcompiles : Compiles f ws m1 m)
    (hself : f ∉ ws)
    (hplain : ∀ w ∈ ws, ∀ id, m.engine.dict.find? w = some id → m.engine.dict.Plain id)
    (hdepth : ∀ u m', Line dispatch [f] m u m' → u.fault? ≠ some .returnOverflow) :
    (∀ u s, (∃ m', Line dispatch [f] m u m' ∧ m'.seen = s) ↔
      ∃ m', Line dispatchNarrow ws m u m' ∧ m'.seen = s) ∧
    ((∀ w ∈ ws, ∀ n, lookup? m.engine.dict w = none → w.readCell = .ok n →
        -128 ≤ n.toInt ∧ n.toInt ≤ 127) →
      ∀ u s, (∃ m', Line dispatch [f] m u m' ∧ m'.seen = s) ↔
        ∃ m', Line dispatch ws m u m' ∧ m'.seen = s) ∧
    (0 < m.engine.limit → ∃ u m', Line dispatch [f] m u m') := by
  obtain ⟨hm1, hat⟩ := htop.isSound (fresh_create hnew).isSound
  have hcompiled := hcompiles.compiled hm1 hat hself
  have hnarrow : ∀ body, List.Forall₂ (Translates m.engine.dict) ws body →
      List.Forall₂ (Performs dispatchNarrow m.engine.dict) ws body :=
    fun _ hws => hws.imp fun _ _ => performs_dispatchNarrow
  refine ⟨?_, ?_, ?_⟩
  · intro u s
    exact line_of_compiled hcompiled hplain hnarrow hdepth s
  · intro hrange u s
    exact line_of_compiled hcompiled hplain (fun _ hws => forall₂_performs_dispatch hws hrange)
      hdepth s
  · intro hlimit
    obtain ⟨id, m2, hadvance, hbeside⟩ := beside_of_compiled hcompiled hplain hnarrow
    obtain ⟨u, m', hline⟩ := exists_line hbeside.sound (by rw [hbeside.alike.limit]; exact hlimit)
    exact ⟨u, m', (line_iff hadvance).mpr hline⟩

/-- A definition over two lines, in which 300 is compiled to 44. -/
theorem compiled_line_of_session :
    ∃ m₀ m1 m, create [.written [] (.ok (utf8 ": f 300\ndup * ;\n")), .limit 3] = .ok m₀ ∧
      TopLevel m₀ m1 ∧ Compiles (utf8 "f") [utf8 "300", utf8 "dup", utf8 "*"] m1 m ∧
      (∀ w ∈ [utf8 "300", utf8 "dup", utf8 "*"], ∀ id, m.engine.dict.find? w = some id →
        m.engine.dict.Plain id) ∧
      (∀ u m', Line dispatch [utf8 "f"] m u m' → u.fault? ≠ some .returnOverflow) ∧
      ∃ m', Line dispatchNarrow [utf8 "300", utf8 "dup", utf8 "*"] m .back m' ∧
        m'.engine.stack = [1936] := by
  obtain ⟨m₀, hnew⟩ : ∃ m₀, create [.written [] (.ok (utf8 ": f 300\ndup * ;\n")),
      .limit 3] = .ok m₀ := ⟨_, rfl⟩
  -- the session, one action after the other
  obtain ⟨m1, henter, m2, hcolon, m3, hopen, m4, hread1, m5, hword1, m6, hend, m7, hjump, m8,
      hprompt, m9, hread2, m10, hword2, m11, hread3, m12, hword3, m13, hread4, m, hclose, a1, ha1,
      a2, ha2, a3, ha3, a4, ha4, a5, ha5, hback, hstack, hm1, hcompiling, hm8, hsilent1, hsilent2,
      hsilent3, hplain⟩ :
      ∃ m1, step (m₀.indent true) = prompt m1 ∧
      ∃ m2, nextWord m1 = .ok (some (utf8 ":")) m2 ∧ ∃ m3, dispatch (utf8 ":") m2 = .ok true m3 ∧
      ∃ m4, nextWord m3 = .ok (some (utf8 "300")) m4 ∧
      ∃ m5, dispatch (utf8 "300") m4 = .ok true m5 ∧ ∃ m6, nextWord m5 = .ok none m6 ∧
      ∃ m7, step m6 = .ok () m7 ∧ ∃ m8, step m7 = prompt m8 ∧
      ∃ m9, nextWord m8 = .ok (some (utf8 "dup")) m9 ∧
      ∃ m10, dispatch (utf8 "dup") m9 = .ok true m10 ∧
      ∃ m11, nextWord m10 = .ok (some (utf8 "*")) m11 ∧
      ∃ m12, dispatch (utf8 "*") m11 = .ok true m12 ∧
      ∃ m13, nextWord m12 = .ok (some (utf8 ";")) m13 ∧ ∃ m, dispatch (utf8 ";") m13 = .ok true m ∧
      ∃ a1, advance dispatch [utf8 "f"] m = .inl ([], a1) ∧
      ∃ a2, advance dispatch [] a1 = .inl ([], a2) ∧ ∃ a3, advance dispatch [] a2 = .inl ([], a3) ∧
      ∃ a4, advance dispatch [] a3 = .inl ([], a4) ∧ ∃ a5, advance dispatch [] a4 = .inl ([], a5) ∧
      advance dispatch [] a5 = .inr (.back, a5) ∧ a5.engine.stack = [1936] ∧ TopLevel m₀ m1 ∧
      Compiling (utf8 "f") m1 [] m3 ∧
      (m3.engine.running = true ∧ m5.engine.running = true ∧ m8.engine.running = true ∧
        m10.engine.running = true ∧ m12.engine.running = true ∧
        Becomes m7 { m7.engine with pc := 0 } m8) ∧
      (m5.console = m4.console ∧ m5.engine.mode = .compile) ∧
      (m10.console = m9.console ∧ m10.engine.mode = .compile) ∧
      (m12.console = m11.console ∧ m12.engine.mode = .compile) ∧
      ∀ w ∈ [utf8 "300", utf8 "dup", utf8 "*"], ∀ id, m.engine.dict.find? w = some id →
        m.engine.dict.Plain id := by
    cases hnew
    iterate 2 refine ⟨_, rfl, ?_⟩
    refine ⟨_,
      (dispatch_of_call rfl rfl rfl).trans (bind_of_ok (define_new (nextName_of_word rfl) rfl)), ?_⟩
    iterate 16 refine ⟨_, rfl, ?_⟩
    refine ⟨rfl, rfl, .enter ⟨0, .background, _, rfl⟩ rfl rfl ⟨rfl, rfl, rfl⟩ rfl, ?_,
      ⟨rfl, rfl, rfl, rfl, rfl, rfl, rfl, rfl⟩, ⟨rfl, rfl⟩, ⟨rfl, rfl⟩, ⟨rfl, rfl⟩, ?_⟩
    · exact .colon rfl (.word rfl rfl)
        ((dispatch_of_call rfl rfl rfl).trans (bind_of_ok (define_new (nextName_of_word rfl) rfl)))
          rfl rfl rfl
    · refine List.forall_mem_cons.mpr ⟨?_, List.forall_mem_cons.mpr ⟨?_,
        List.forall_mem_singleton.mpr ?_⟩⟩
      · nofun
      · rintro id ⟨⟩
        exact Dictionary.plain_of_code_nil rfl rfl (by decide) (by decide)
      · rintro id ⟨⟩
        exact Dictionary.plain_of_code_nil rfl rfl (by decide) (by decide)
  obtain ⟨hrunning1, hrunning2, hrunning3, hrunning4, hrunning5, hm8⟩ := hm8
  have hcompiles : Compiles (utf8 "f") [utf8 "300", utf8 "dup", utf8 "*"] m1 m :=
    ⟨m12, m13, ((hcompiling.word (.word hrunning1 hread1) hword1 hsilent1.1 hsilent1.2).word
      (.line hrunning2 hend hjump hm8 hprompt (.word hrunning3 hread2)) hword2 hsilent2.1
      hsilent2.2).word (.word hrunning4 hread3) hword3 hsilent3.1 hsilent3.2,
      .word hrunning5 hread4, hclose⟩
  have hline : ∀ {u m'}, Line dispatch [utf8 "f"] m u m' ↔ u = .back ∧ m' = a5 := by
    intro u m'
    rw [line_iff ha1, line_iff ha2, line_iff ha3, line_iff ha4, line_iff ha5, line_iff_last hback]
  have hdepth : ∀ u m', Line dispatch [utf8 "f"] m u m' → u.fault? ≠ some .returnOverflow := by
    intro u m' h
    obtain ⟨rfl, -⟩ := hline.mp h
    nofun
  obtain ⟨hmeaning, -, -⟩ := compiled_line hnew hm1 hcompiles (by decide) hplain hdepth
  obtain ⟨m', hdirect, hseen⟩ := (hmeaning .back a5.seen).mp ⟨a5, hline.mpr ⟨rfl, rfl⟩, rfl⟩
  exact ⟨m₀, m1, m, hnew, hm1, hcompiles, hplain, hdepth, m', hdirect,
    (congrArg Prod.fst hseen).trans hstack⟩

end Machine

end ColonMachine
