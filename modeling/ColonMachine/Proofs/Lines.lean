import ColonMachine.Proofs.Definitions
import ColonMachine.Proofs.Termination
import ColonMachine.Proofs.View
import Mathlib.Logic.Relation

/-!
# Lines at the top level

When a line is used up, the prompt instruction is over, the top level loop goes round, and the
prompt instruction begins again with the engine as it was (`LineOver`).  Then the machine waits for
a line (`Waiting`): blank ones are passed over (`Waiting.skip`), the first other one gives its first
word (`Waiting.word`), and if there is none the session is halted (`Waiting.ended`).

What stands on the console matters to none of this, as long as what happens before a line is read
does not fail.  `P` is whatever is known of the console, and `Announced` says that this keeps it.
-/

namespace ColonMachine.Machine

variable {P : Console → Prop} {m m' m1 a b c : Machine} {w : Text} {line : List Text}
  {lines rest blanks : List (List Text)}

/-- At the top level, the end of a line is met, and the loop goes round to wait for the next one. -/
structure LineOver (m m' : Machine) : Prop where
  engine : m'.engine = m.engine
  round : ∃ m1 m2, nextWord m = .ok none m1 ∧
    Becomes m1 { m1.engine with pc := -1 } m2 ∧ step m1 = .ok () m2 ∧
    Becomes m2 { m2.engine with pc := 0 } m' ∧ step m2 = prompt m'

lemma LineOver.pending (h : LineOver m m') : m'.pending < m.pending := by
  obtain ⟨-, m1, m2, hnext, hm2, -, hm', -⟩ := h
  have hless := pending_of_nextWord hnext
  rw [hm'.pending, hm2.pending]
  simp only [Option.isSome_none, Bool.false_eq_true, if_false] at hless
  omega

/-- Any number of line ends are met. -/
def LinesOver : Machine → Machine → Prop := Relation.ReflTransGen LineOver

lemma LinesOver.engine (h : LinesOver m m') : m'.engine = m.engine := by
  induction h with
  | refl => rfl
  | tail _ hover ih => exact hover.engine.trans ih

lemma LinesOver.pending (h : LinesOver m m') : m'.pending ≤ m.pending := by
  induction h with
  | refl => exact Nat.le_refl _
  | tail _ hover ih => exact Nat.le_trans (Nat.le_of_lt hover.pending) ih

lemma LinesOver.reads (h : LinesOver m m1) (hrunning : m.engine.running = true)
    (hreads : Reads w m1 m') : Reads w m m' := by
  induction h using Relation.ReflTransGen.head_induction_on with
  | refl => exact hreads
  | head hover _ ih =>
      obtain ⟨hengine, a, b, hnext, -, hjump, hb, hprompt⟩ := hover
      exact .line hrunning hnext hjump hb hprompt (ih (by rw [hengine, hrunning]))

/-- After some number of instructions, the run from `a` goes on as the one from `b`. -/
def Leads (a b : Machine) : Prop :=
  ∃ n, ∀ fuel, exec (fuel + n) .background a = exec fuel .background b

lemma leads_refl (a : Machine) : Leads a a := ⟨0, fun _ => rfl⟩

lemma Leads.trans (h : Leads a b) (h' : Leads b c) : Leads a c := by
  obtain ⟨n, hn⟩ := h
  obtain ⟨n', hn'⟩ := h'
  exact ⟨n' + n, fun fuel => by rw [← Nat.add_assoc, hn, hn']⟩

lemma leads_of_step (hrunning : a.engine.running = true) (hstep : step a = .ok () b) : Leads a b :=
  ⟨1, exec_tick hrunning (tick_of_ok hstep)⟩

/-- Every line end takes two instructions: the prompt is completed, and the jump follows. -/
lemma LinesOver.leads (h : LinesOver m m') (hstep : step a = prompt m)
    (hrunning : a.engine.running = true) (hm : m.engine.running = true) :
    ∃ a', Leads a a' ∧ step a' = prompt m' ∧ a'.engine.running = true := by
  induction h using Relation.ReflTransGen.head_induction_on generalizing a with
  | refl => exact ⟨a, leads_refl a, hstep, hrunning⟩
  | @head m m1 hover _ ih =>
      obtain ⟨hengine, b, c, hnext, -, hjump, hc, hprompt⟩ := hover
      have hb : b.engine.running = true := by rw [((talks_nextWord m).of_ok hnext).1, hm]
      have hm1 : m1.engine.running = true := by rw [hengine, hm]
      have hc' : c.engine.running = true := by rw [← hm1, hc.engine]
      have hended : step a = .ok () b := hstep.trans (prompt_ended hm (bind_of_ok hnext))
      obtain ⟨a', hleads, hstep', hrunning'⟩ := ih hprompt hc' hm1
      exact ⟨a', (leads_of_step hrunning hended).trans ((leads_of_step hb hjump).trans hleads),
        hstep', hrunning'⟩

/-- What happens before a line is read does not fail, and keeps what is known of the console. -/
def Announced (P : Console → Prop) : Prop := ∀ mode src c, P c →
  ∃ c', Source.announce (Console.hooks mode) src c = (none, c') ∧ P c'

/-- The machine is in the prompt instruction of a session that goes on, has used up its line, and
can still read `lines`. -/
structure Waiting (P : Console → Prop) (lines : List (List Text)) (m : Machine) : Prop where
  sound : m.IsSound
  control : m.engine.control = onPrompt
  running : m.engine.running = true
  buffer : m.input.buffer = none
  unread : m.input.unread = lines
  console : P m.console

/-- When the end of a line is met, the loop goes round. -/
lemma exists_lineOver (hm : m.IsSound) (hat : m.engine.control = onPrompt)
    (hnext : nextWord m = .ok none m1) :
    ∃ m', LineOver m m' ∧ m'.input = m1.input ∧ m'.console = m1.console := by
  have hengine : m1.engine = m.engine := ((talks_nextWord m).of_ok hnext).1
  have hfn : m1.engine.fn = bootId := by rw [hengine]; exact congrArg Control.fn hat
  have hpc : m1.engine.pc = 0 := by rw [hengine]; exact congrArg Control.pc hat
  have hboot : m1.engine.dict.get? bootId = some bootFunction := by
    rw [hengine]
    exact hm.engine.get?_boot
  obtain ⟨m2, hm2, hjump⟩ := step_jump ⟨hboot, hfn, hpc⟩
  obtain ⟨m3, hm3, hprompt⟩ := step_prompt (m := m2)
    ⟨by rw [hm2.engine]; exact hboot, by rw [hm2.engine]; exact hfn, by rw [hm2.engine]⟩
  have hengine3 : m3.engine = m.engine := by
    rw [hm3.engine, hm2.engine, ← hengine]
    dsimp only
    rw [← hpc]
  exact ⟨m3, ⟨hengine3, m1, m2, hnext, hm2, hjump, hm3, hprompt⟩, hm3.input.trans hm2.input,
    hm3.console.trans hm2.console⟩

lemma lineOver_of_mark (hm : m.IsSound) (hat : m.engine.control = onPrompt)
    (hrunning : m.engine.running = true) (hP : P m.console) (hbuffer : m.input.buffer = some []) :
    ∃ m', LineOver m m' ∧ Waiting P m.input.unread m' := by
  obtain ⟨m1, hnext, -, hconsole1, hinput1⟩ := nextWord_of_mark hbuffer
  obtain ⟨m', hover, hinput, hconsole⟩ := exists_lineOver hm hat hnext
  rw [hinput1] at hinput
  refine ⟨m', hover, ⟨?_, ?_⟩, ?_, ?_, ?_, ?_, ?_⟩
  · rw [hover.engine]
    exact hm.engine
  · exact Source.tidy_of_buffer_none (by rw [hinput])
  · rw [hover.engine, hat]
  · rw [hover.engine, hrunning]
  · rw [hinput]
  · rw [hinput]
    rfl
  · rw [hconsole, hconsole1]
    exact hP

namespace Waiting

section Announced

variable (hP : Announced P)
include hP

/-- The next line is read as soon as a word is wanted. -/
lemma next (h : Waiting P (line :: lines) m) :
    ∃ m1, nextWord m = nextWord m1 ∧ m1.engine = m.engine ∧ m1.input.buffer = some line ∧
      m1.input.unread = lines ∧ P m1.console :=
  nextWord_readLine (hP m.engine.mode) h.console h.buffer h.unread

lemma word (h : Waiting P ((w :: line) :: lines) m) :
    ∃ m', nextWord m = .ok (some w) m' ∧ m'.input.buffer = some line ∧ m'.input.unread = lines ∧
      P m'.console := by
  obtain ⟨m1, hnext, -, hbuffer, hunread, hconsole1⟩ := h.next hP
  obtain ⟨m', hword, -, hconsole, hinput⟩ := nextWord_of_word hbuffer
  refine ⟨m', hnext.trans hword, by rw [hinput], ?_, by rw [hconsole]; exact hconsole1⟩
  rw [hinput, ← hunread]
  rfl

lemma blank (h : Waiting P ([] :: lines) m) : ∃ m', LineOver m m' ∧ Waiting P lines m' := by
  obtain ⟨m1, hnext, hengine, hbuffer, hunread, hconsole⟩ := h.next hP
  have hm1 : m1.IsSound :=
    ⟨by rw [hengine]; exact h.sound.engine, by simp [Source.Tidy, Source.buffered, hbuffer]⟩
  obtain ⟨m', ⟨hengine', a, b, hword, hround⟩, hwaiting⟩ := lineOver_of_mark hm1
    (by rw [hengine, h.control]) (by rw [hengine, h.running]) hconsole hbuffer
  rw [hunread] at hwaiting
  exact ⟨m', ⟨hengine'.trans hengine, a, b, hnext.trans hword, hround⟩, hwaiting⟩

/-- **Blank lines are passed over.**  The induction is over them. -/
lemma skip (h : Waiting P (blanks ++ rest) m) (hblank : ∀ b ∈ blanks, b = []) :
    ∃ m', LinesOver m m' ∧ Waiting P rest m' := by
  induction blanks generalizing m with
  | nil => exact ⟨m, .refl, h⟩
  | cons b blanks ih =>
      obtain rfl := hblank b List.mem_cons_self
      obtain ⟨m1, hover, h1⟩ := h.blank hP
      obtain ⟨m', hovers, h'⟩ := ih h1 fun b hb => hblank b (List.mem_cons_of_mem _ hb)
      exact ⟨m', .head hover hovers, h'⟩

/-- If there is no line any more, the session is halted. -/
lemma ended (h : Waiting P [] m) :
    ∃ failure m1, nextWord m = halt (some failure) m1 ∧ m1.engine = m.engine ∧
      m1.input.buffer = none ∧ m1.input.unread = [] ∧ P m1.console := by
  obtain ⟨failure, src, c, hnext, hbuffer, hunread, hc⟩ :=
    nextWord_readEnd (hP m.engine.mode) h.console h.buffer h.unread
  exact ⟨failure, _, hnext, rfl, hbuffer, hunread, hc⟩

end Announced

end Waiting

end ColonMachine.Machine
