import ColonMachine.Proofs.Course
import ColonMachine.Proofs.Honest
import ColonMachine.Proofs.Reflow

/-!
# No output is lost in silence

What a machine hands to its output may get stuck in buffers, or be refused.  As long as no event is
fatal, every outlet in use keeps all of it, and whenever a stream is read all of it has arrived
(`Story.kept`).  The only event that leaves an outlet with less is a write that fails, and it is
fatal; then every outlet has kept the beginning of what was said, which the flush of a halt does not
change (`Story.halting`).  So of all ways in which a session can end, those without a failure are
those where everything has arrived (`EndsAt.arrival`).

A run that is answered with no failure may still have failed: if the end of the input is at the
bottom of a failure, the run is taken to have ended there (`Event.ends_normally`).  This is the only
way in which output is lost in silence, and it does happen, since a flush that fails so hides the
failures of all outlets behind it (`output_lost_in_silence`).
-/

namespace ColonMachine

/-! ## Events and the console -/

namespace Event

/-- The event is that a stream was read. -/
def Reads : Event → Prop
  | read _ | exhausted => True
  | _ => False

/-- The event comes with a flush that has succeeded. -/
def Flushes : Event → Prop
  | read _ | exhausted | parted none => True
  | _ => False

lemma Reads.flushes {e : Event} (h : e.Reads) : e.Flushes := by
  cases e with
  | read _ => trivial
  | exhausted => trivial
  | _ => exact absurd h id

/-- The event can fail because of the output. -/
def Speaks : Event → Prop
  | wrote _ | stuck _ | parted _ => True
  | _ => False

/-- The ends that a run is answered no failure for. -/
lemma ends_normally {e : Event} (hfatal : e.Fatal) (hanswer : e.answer? = none) :
    e.Flushes ∨ e = .nothing ∨
      ∃ f, e.cause? = some f ∧ ¬ f.Genuine ∧ (e.Speaks ∨ e = .asked (some f)) := by
  have hmasked : ∀ {f}, e.cause? = some f → ¬ f.Genuine := by
    intro f hcause
    simpa [answer?, hcause, Option.filter_some, Failure.Genuine] using hanswer
  cases e with
  | wrote failure? =>
      rcases hfatal with hcause | hparted
      · obtain ⟨f, hf⟩ := Option.ne_none_iff_exists'.mp hcause
        exact Or.inr (Or.inr ⟨f, hf, hmasked hf, Or.inl trivial⟩)
      · cases hparted
  | stuck failure => exact Or.inr (Or.inr ⟨failure, rfl, hmasked rfl, Or.inl trivial⟩)
  | read failure? => exact Or.inl trivial
  | opened => exact absurd hfatal (by simp [Fatal, cause?])
  | exhausted => exact Or.inl trivial
  | nothing => exact Or.inr (Or.inl rfl)
  | asked cause? =>
      rcases hfatal with hcause | hparted
      · obtain ⟨f, hf⟩ := Option.ne_none_iff_exists'.mp hcause
        exact Or.inr (Or.inr ⟨f, hf, hmasked hf, Or.inr (congrArg asked hf)⟩)
      · cases hparted
  | parted failure? =>
      cases failure? with
      | none => exact Or.inl trivial
      | some failure => exact Or.inr (Or.inr ⟨failure, rfl, hmasked rfl, Or.inl trivial⟩)
  | halted late? => exact absurd hfatal (by simp [Fatal, cause?])

end Event

namespace Console

variable {P : Failure → Prop} {c₀ c c' : Console} {R : Text → Outlet → Outlet → Prop} {e : Event}

/-- Every outlet in use has kept all that was said, and it has arrived. -/
structure Arrived (P : Failure → Prop) (c₀ c : Console) : Prop extends
    Holds (Outlet.Kept P) c₀ c where
  flushed : c.Flushed

lemma Arrived.received (h : Arrived P c₀ c) : c₀.Received c.said c := by
  intro i hi o ho hkeeps
  obtain ⟨o', ho', hkept⟩ := h.outlets.changed i hi o ho
  refine ⟨o', ho', ?_⟩
  rw [h.flushed i (by rw [h.route]; exact hi) o' ho', hkept.content hkeeps]

/-- Every outlet in use has received the beginning of what was said since the console was `c₀`. -/
def Receiving (c₀ c : Console) : Prop :=
  ∀ i ∈ c₀.route.outlets, ∀ o, c₀.outlets[i]? = some o →
    ∃ o', c.outlets[i]? = some o' ∧ o'.received <+: o.content ++ c.said

lemma Holds.receiving (h : Holds (Outlet.Partly P) c₀ c) : c₀.Receiving c := by
  intro i hi o ho
  obtain ⟨o', ho', taken, htaken, hkept⟩ := h.outlets.changed i hi o ho
  refine ⟨o', ho', ?_⟩
  by_cases hdiscard : o = .discard
  · rw [hkept.discard.mpr hdiscard]
    exact List.nil_prefix
  · refine o'.received_prefix_content.trans ?_
    rw [hkept.content hdiscard]
    exact (List.prefix_append_right_inj _).mpr htaken

lemma Holds.reported (h : Holds R c₀ c) (reported : Bool) : Holds R c₀ { c with reported } :=
  ⟨h.route, h.settled, h.outlets⟩

/-- What is known of the console right after an event, if all was kept before it. -/
structure After (P : Failure → Prop) (c₀ : Console) (e : Event) (c : Console) : Prop where
  part : Holds (Outlet.Partly P) c₀ c
  whole : (∀ f, e ≠ .wrote (some f)) → Holds (Outlet.Kept P) c₀ c
  flushed : e.Flushes → c.Flushed
  fails : e.Speaks → ∀ f ∈ e.cause?, P f

lemma Holds.after (h : Holds (Outlet.Kept P) c₀ c) (hflushed : e.Flushes → c.Flushed)
    (hfails : e.Speaks → ∀ f ∈ e.cause?, P f) : After P c₀ e c :=
  ⟨h.partly, fun _ => h, hflushed, hfails⟩

lemma After.arrived (h : After P c₀ e c) (he : e.Flushes) : Arrived P c₀ c := by
  refine ⟨h.whole ?_, h.flushed he⟩
  rintro f rfl
  exact he

end Console

namespace Machine

variable {P : Failure → Prop} {c₀ : Console} {m m' m1 : Machine} {moments later : List Moment}
    {x : Moment} {e : Event}

open Console

lemma Happens.after (hc₀ : c₀.Unused P) (h : Happens m e m')
    (hm : Holds (Outlet.Kept P) c₀ m.console) :
    After P c₀ e m'.console := by
  have hsettle := hm.settle hc₀ Outlet.lasting_kept
  have hflush := hm.flush hc₀ Outlet.lasting_kept
  -- a stream is read only after a flush, and nothing is written by it
  have hread : ∀ {e : Event} {c : Console}, m.console.settle = (none, c) → ¬ e.Speaks →
      After P c₀ e c := by
    intro e c heq hspeaks
    rw [heq] at hsettle
    exact hsettle.1.after (fun _ => hsettle.2.2 (Or.inl rfl)) fun he => absurd he hspeaks
  have hidle : ∀ {e : Event}, ¬ e.Flushes → ¬ e.Speaks → After P c₀ e m.console :=
    fun hflushes hspeaks => hm.after (fun he => absurd he hflushes) fun he => absurd he hspeaks
  cases h with
  | wrote manner piece =>
      obtain ⟨hkept, hpartly, hfails⟩ := hm.hand hc₀ manner piece
      refine ⟨hpartly, fun hwrote => hkept ?_, fun he => absurd he id, fun _ => hfails⟩
      cases hfailure : (m.console.hand manner piece).1 with
      | none => rfl
      | some f => exact absurd (congrArg Event.wrote hfailure) (hwrote f)
  | stuck heq =>
      rw [heq] at hsettle
      exact hsettle.1.after (fun he => absurd he id) fun _ => hsettle.2.1
  | line _ _ heq => exact hread heq id
  | ended _ _ _ _ heq => exact hread heq id
  | failed _ _ _ heq => exact hread heq id
  | opened _ => exact hidle id id
  | exhausted _ _ _ _ heq => exact hread heq id
  | nothing _ _ => exact hidle id id
  | asked _ => exact hidle id id
  | parted _ =>
      refine hflush.1.after (fun he => hflush.2.2 (Or.inl ?_)) fun _ => hflush.2.1
      cases hfailure : m.console.flush.1 with
      | none => rfl
      | some f => rw [hfailure] at he; exact absurd he id
  | halted => exact hflush.1.after (fun he => absurd he id) fun he => absurd he id

/-! ## Stories and the console -/

lemma Story.uncons (h : Story m (x :: later) m') :
    ∃ m1, Story m [] m1 ∧ Happens m1 x.event x.machine ∧ Story x.machine later m' := by
  generalize hmoments : x :: later = moments at h
  induction h with
  | done => cases hmoments
  | silently hsilent _ ih =>
      obtain ⟨m2, hstory, hrest⟩ := ih hmoments
      exact ⟨m2, .silently hsilent hstory, hrest⟩
  | event hevent rest _ =>
      cases hmoments
      exact ⟨_, .done _, hevent, rest⟩

lemma Story.split (h : Story m (moments ++ later) m') :
    ∃ m1, Story m moments m1 ∧ Story m1 later m' := by
  induction moments generalizing m with
  | nil => exact ⟨m, .done m, h⟩
  | cons x moments ih =>
      obtain ⟨m1, hsilent, hevent, hrest⟩ := h.uncons
      obtain ⟨m2, hmoments, hlater⟩ := ih hrest
      exact ⟨m2, hsilent.append (.event hevent hmoments), hlater⟩

lemma Silent.holds {R : Text → Outlet → Outlet → Prop} (h : Silent m m')
    (hm : Holds R c₀ m.console) :
    Holds R c₀ m'.console := by
  rw [h.console]
  exact hm.reported _

/-- **The step lemma, along events of which none is fatal.**  All that was said is kept. -/
lemma Story.kept (hc₀ : c₀.Unused P) (h : Story m moments m') (hcalm : Calm moments)
    (hm : Holds (Outlet.Kept P) c₀ m.console) :
    Holds (Outlet.Kept P) c₀ m'.console ∧ ∀ y ∈ moments, After P c₀ y.event y.machine.console := by
  induction h with
  | done => exact ⟨hm, by simp⟩
  | silently hsilent _ ih => exact ih hcalm (hsilent.holds hm)
  | @event m m1 m' moments e hevent _ ih =>
      have hafter := hevent.after hc₀ hm
      have hkept : Holds (Outlet.Kept P) c₀ m1.console := by
        refine hafter.whole ?_
        rintro f rfl
        exact (hcalm _ List.mem_cons_self).1 (Event.fatal_of_cause rfl)
      obtain ⟨hm', hrest⟩ := ih (fun y hy => hcalm y (List.mem_cons_of_mem _ hy)) hkept
      exact ⟨hm', List.forall_mem_cons.mpr ⟨hafter, hrest⟩⟩

/-- Once the session is over, only what flushes do becomes of the console. -/
lemma Story.halting {Q : Console → Prop} (hreported : ∀ c reported, Q c → Q { c with reported })
    (hflush : ∀ c, Q c → Q c.flush.2) (h : Story m moments m')
    (hlast : ∀ y ∈ moments, y.event.IsLast) (hm : Q m.console) :
    Q m'.console ∧ ∀ y ∈ moments, Q y.machine.console := by
  induction h with
  | done => exact ⟨hm, by simp⟩
  | silently hsilent _ ih =>
      refine ih hlast ?_
      rw [hsilent.console]
      exact hreported _ _ hm
  | @event m m1 m' moments e hevent _ ih =>
      have hm1 : Q m1.console := by
        have he := hlast _ List.mem_cons_self
        cases hevent with
        | parted _ => exact hflush _ hm
        | halted => exact hflush _ hm
        | _ => exact absurd he id
      obtain ⟨hm', hrest⟩ := ih (fun y hy => hlast y (List.mem_cons_of_mem _ hy)) hm1
      exact ⟨hm', List.forall_mem_cons.mpr ⟨hm1, hrest⟩⟩

/-- The session ends at `x`: what becomes of the output by then and after. -/
lemma EndsAt.arrival (hends : EndsAt moments x) (hc₀ : c₀.Unused P) (h : Story m moments m')
    (hm : Holds (Outlet.Kept P) c₀ m.console) :
    After P c₀ x.event x.machine.console ∧ Holds (Outlet.Partly P) c₀ m'.console ∧
      (x.event.Flushes → Arrived P c₀ m'.console) ∧
      ∀ y ∈ moments, Holds (Outlet.Partly P) c₀ y.machine.console ∧
        (y.event.Reads → Arrived P c₀ y.machine.console) := by
  obtain ⟨before, after, rfl, hcalm, hfatal, hhalted⟩ := hends
  have hlast : ∀ y ∈ after, y.event.IsLast := by
    intro y hy
    obtain ⟨late?, hlate⟩ := hhalted y hy
    rw [hlate]
    exact trivial
  obtain ⟨m1, hbefore, hrest⟩ := h.split
  obtain ⟨m2, hsilent, hevent, hafter⟩ := hrest.uncons
  obtain ⟨hm1, hmoments⟩ := hbefore.kept hc₀ hcalm hm
  have hx := hevent.after hc₀ (hsilent.kept hc₀ calm_nil hm1).1
  obtain ⟨hpart, hparts⟩ :=
    hafter.halting (Q := Holds (Outlet.Partly P) c₀) (fun _ _ hc => hc.reported _)
    (fun _ hc => (hc.flush hc₀ Outlet.lasting_partly).1) hlast hx.part
  have harrives : ∀ {y : Moment}, After P c₀ y.event y.machine.console →
      Holds (Outlet.Partly P) c₀ y.machine.console ∧
      (y.event.Reads → Arrived P c₀ y.machine.console) := by
    intro y hy
    exact ⟨hy.part, fun hreads => hy.arrived hreads.flushes⟩
  refine ⟨hx, hpart, fun hflushes => ?_, ?_⟩
  · refine (hafter.halting (Q := Arrived P c₀) (fun _ _ hc => ⟨hc.reported _, hc.flushed⟩) ?_ hlast
      (hx.arrived hflushes)).1
    intro c hc
    obtain ⟨hkept, -, hflushed⟩ := hc.flush hc₀ Outlet.lasting_kept
    exact ⟨hkept, hflushed (Or.inr hc.flushed)⟩
  · intro y hy
    rcases List.mem_append.mp hy with hy | hy
    · exact harrives (hmoments y hy)
    · rcases List.mem_cons.mp hy with rfl | hy
      · exact harrives hx
      · refine ⟨hparts y hy, fun hreads => ?_⟩
        obtain ⟨late?, hlate⟩ := hhalted y hy
        rw [hlate] at hreads
        exact absurd hreads id

/-! ## Sessions without a stream -/

/-- As long as no event is fatal, there is a stream. -/
lemma Story.hasStream (h : Story m moments m') (hcalm : Calm moments)
    (hm : m.input.current ≠ none ∨ m.input.queue ≠ []) :
    m'.input.current ≠ none ∨ m'.input.queue ≠ [] := by
  induction h with
  | done => exact hm
  | silently hsilent _ ih =>
      refine ih hcalm ?_
      rw [hsilent.input]
      exact hm
  | @event m m1 m' moments e hevent _ ih =>
      refine ih (fun y hy => hcalm y (List.mem_cons_of_mem _ hy)) ?_
      have he := (hcalm _ List.mem_cons_self).1
      cases hevent with
      | line _ _ _ => exact Or.inl nofun
      | opened _ => exact Or.inl nofun
      | exhausted _ _ _ _ _ => exact absurd (Event.fatal_of_cause rfl) he
      | nothing _ _ => exact absurd (Event.fatal_of_cause rfl) he
      | _ => exact hm

/-- If there is a stream at the beginning, a session does not end for want of one. -/
lemma EndsAt.ne_nothing (hends : EndsAt moments x) (h : Story m moments m')
    (hm : m.input.current ≠ none ∨ m.input.queue ≠ []) : x.event ≠ .nothing := by
  obtain ⟨before, after, rfl, hcalm, -, -⟩ := hends
  obtain ⟨m1, hbefore, hrest⟩ := h.split
  obtain ⟨m2, hsilent, hevent, -⟩ := hrest.uncons
  have hm2 := hsilent.hasStream calm_nil (hbefore.hasStream hcalm hm)
  obtain ⟨e, m3⟩ := x
  rintro rfl
  cases hevent with
  | nothing hcurrent hqueue => exact hm2.elim (absurd hcurrent) (absurd hqueue)

lemma nextWord_of_nothing (hbuffer : m.input.buffer = none) (hcurrent : m.input.current = none)
    (hqueue : m.input.queue = []) :
    ∃ m', nextWord m = .error (.halt (some .endOfInput)) m' ∧
      m'.console.offered = m.console.offered := by
  have hread : m.input.nextWord (Console.hooks m.engine.mode) m.console
      = (.error .endOfInput, { m.input with queue := [], current := none }, m.console) := by
    rw [Source.nextWord, if_pos (by rw [Source.isEmpty, hbuffer]; rfl),
      Source.readLine_of_none hcurrent, hqueue]
    rfl
  rw [nextWord_eq, hread]
  exact ⟨_, rfl, by rw [console_noted]⟩

/-- Without a stream, the first instruction of a new machine is broken off before anything is
said. -/
lemma instruct_of_nothing (h : m.Fresh) (hqueue : m.input.queue = []) :
    ∃ m', instruct m = .error (.halt (some .endOfInput)) m' ∧
      m'.console.offered = m.console.offered := by
  have hboot : AtBoot m (-1) :=
    ⟨h.isSound.engine.get?_boot, by rw [h.engine]; rfl, by rw [h.engine]; rfl⟩
  obtain ⟨m1, hm1, hstep⟩ := step_prompt hboot
  have hrunning : m1.engine.running = true := by rw [hm1.engine, h.engine]; rfl
  obtain ⟨m', hnext, hoffered⟩ := nextWord_of_nothing (m := m1) (by rw [hm1.input, h.buffer])
    (by rw [hm1.input, h.current]) (by rw [hm1.input, hqueue])
  rw [prompt_broken hrunning (bind_of_error hnext)] at hstep
  exact ⟨m', bind_of_error (by rw [attempt, hstep]), by rw [hoffered, hm1.console]⟩

/-- Without a stream, nothing is said. -/
lemma Course.offered_of_nothing {context : Context} {failure : Failure}
    (h : Course context m moments m') (hbroken : instruct m = .error (.halt (some failure)) m1)
    (hm1 : m1.console.offered = m.console.offered) : m'.console.offered = m.console.offered := by
  cases h with
  | instruction _ hdone _ _ _ =>
      rw [hbroken] at hdone
      cases hdone
  | broken _ hbroken' _ _ hsilent _ =>
      rw [hbroken] at hbroken'
      cases hbroken'
      rw [hsilent.console, hm1]
  | closing hstory hlast _ =>
      exact (hstory.halting (Q := fun c => c.offered = m.console.offered) (fun _ _ hc => hc)
        (fun _ hc => hc) hlast rfl).1

/-! ## Runs -/

/-- What ends a session after an instruction is what the context says. -/
lemma Course.asked {context : Context} {cause : Failure} (h : Course context m moments m')
    (hx : x ∈ moments) (hasked : x.event = .asked (some cause)) :
    ∃ n, context = .endingAt n cause := by
  have hnot : x.event.Inside → False := by
    rw [hasked]
    exact id
  induction h with
  | @instruction context m m1 m' moments later _ _ _ hinside _ ih =>
      rcases List.mem_append.mp hx with hx | hx
      · exact absurd (hinside x hx) hnot
      rcases List.mem_cons.mp hx with rfl | hx
      · exact Context.endingAt_of_asked (Event.asked.inj hasked)
      · obtain ⟨n, hn⟩ := ih hx
        exact Context.endingAt_of_next hn
  | broken _ _ _ hinside _ _ => exact absurd (hinside x hx) hnot
  | closing _ hlast _ =>
      have hlast := hlast x hx
      rw [hasked] at hlast
      exact absurd hlast id

/-- **No output is lost in silence, unless a failure is taken for the end of the input.**  Whatever
a new machine reads, and however its session ends, every outlet that it writes to has at any time
received the beginning of what was said, if only each of them fails whenever it takes less than it
was given.  Whenever a stream is read, all that was said has arrived.

So has it after a run that is answered without a failure, if anything was said at all; or else the
session ended with a failure of the output or of the context which has the end of the input at its
bottom. -/
theorem output_arrives {settings : List Setting} {m₀ : Machine} (hnew : create settings = .ok m₀)
    {P : Failure → Prop} (hhonest : m₀.console.Honest P) (fuel : ℕ) (context : Context) :
    m₀.console.Receiving (run fuel context m₀).2.console ∧
      ∃ moments, Course context (m₀.indent true) moments (run fuel context m₀).2 ∧
        (∀ x ∈ moments, m₀.console.Receiving x.machine.console ∧
          (x.event.Reads → m₀.console.Received x.machine.console.said x.machine.console)) ∧
        ((run fuel context m₀).1 = .ended none → (run fuel context m₀).2.console.said = [] ∨
          m₀.console.Received (run fuel context m₀).2.console.said (run fuel context m₀).2.console ∨
          ∃ x failure, EndsAt moments x ∧ x.event.cause? = some failure ∧ ¬ failure.Genuine ∧
            (x.event.Speaks ∧ P failure ∨ ∃ n, context = .endingAt n failure)) := by
  have hfresh := fresh_create hnew
  have hc₀ := unused_create hnew hhonest
  obtain ⟨moments, hcourse, houtcome⟩ := course_run hfresh.isSound fuel context
  generalize run fuel context m₀ = result at hcourse houtcome
  obtain ⟨_ | failure?, m⟩ := result
  · obtain ⟨hm, hmoments⟩ := hcourse.story.kept hc₀ houtcome hc₀.holds
    refine ⟨hm.partly.receiving, moments, hcourse, fun x hx => ?_, nofun⟩
    have hafter := hmoments x hx
    exact ⟨hafter.part.receiving, fun hreads => (hafter.arrived hreads.flushes).received⟩
  · obtain ⟨x, ⟨hends, -, -⟩, hanswer⟩ := houtcome
    obtain ⟨hafter, hm, harrived, hmoments⟩ := hends.arrival hc₀ hcourse.story hc₀.holds
    refine ⟨hm.receiving, moments, hcourse, fun y hy => ?_, fun hnone => ?_⟩
    · exact ⟨(hmoments y hy).1.receiving, fun hreads => ((hmoments y hy).2 hreads).received⟩
    · cases hnone
      rcases Event.ends_normally hends.fatal hanswer.symm with
        hflushes | hnothing | ⟨failure, hcause, hmasked, hspeaks | hasked⟩
      · exact Or.inr (Or.inl (harrived hflushes).received)
      · refine Or.inl ?_
        by_cases hqueue : m₀.input.queue = []
        · obtain ⟨m1, hbroken, hoffered⟩ := instruct_of_nothing (m := m₀.indent true)
            ⟨hfresh.engine, hfresh.buffer, hfresh.current⟩ hqueue
          have hsilent := hcourse.offered_of_nothing hbroken hoffered
          rw [Console.said, hsilent, show (m₀.indent true).console.offered = [] from hc₀.offered]
          rfl
        · exact absurd hnothing (hends.ne_nothing hcourse.story (Or.inr hqueue))
      · exact Or.inr (Or.inr ⟨x, failure, hends, hcause, hmasked,
          Or.inl ⟨hspeaks, hafter.fails hspeaks failure hcause⟩⟩)
      · exact Or.inr (Or.inr ⟨x, failure, hends, hcause, hmasked,
          Or.inr (hcourse.asked hends.mem hasked)⟩)

/-- Where no stream is read, no line is counted. -/
lemma Story.line_of_unread (h : Story m moments m') (hunread : ∀ x ∈ moments, ¬ x.event.Reads)
    (hm : m.input.last.line = 0) : m'.input.last.line = 0 := by
  induction h with
  | done => exact hm
  | silently hsilent _ ih =>
      refine ih hunread ?_
      rw [hsilent.input]
      exact hm
  | @event m m1 m' moments e hevent _ ih =>
      refine ih (fun x hx => hunread x (List.mem_cons_of_mem _ hx)) ?_
      have he := hunread _ List.mem_cons_self
      cases hevent with
      | line _ _ _ => exact absurd trivial he
      | exhausted _ _ _ _ _ => exact absurd trivial he
      | opened _ => rfl
      | _ => exact hm

theorem output_arrives_of_tee :
    ∃ m₀, create [.output (.buffered { device := .limited (some 30) false none }),
        .tee (.memory []), .input { name := [], lines := [utf8 "1 .\n"] } none] = .ok m₀ ∧
      m₀.console.Honest Failure.Genuine ∧
      m₀.console.Receiving (run 9 .background m₀).2.console ∧
      (∃ moments, Course .background (m₀.indent true) moments (run 9 .background m₀).2 ∧
        (∃ x ∈ moments, x.event.Reads) ∧
        ∀ x ∈ moments, x.event.Reads →
          m₀.console.Received x.machine.console.said x.machine.console) ∧
      (run 9 .background m₀).1 = .ended none ∧ (run 9 .background m₀).2.console.said ≠ [] ∧
      m₀.console.Received (run 9 .background m₀).2.console.said
        (run 9 .background m₀).2.console := by
  obtain ⟨m₀, hnew⟩ : ∃ m₀, create [.output (.buffered { device := .limited (some 30) false none }),
      .tee (.memory []), .input { name := [], lines := [utf8 "1 .\n"] } none] = .ok m₀ := ⟨_, rfl⟩
  have hhonest : m₀.console.Honest Failure.Genuine := by
    cases hnew
    intro i hi o ho
    rcases List.mem_cons.mp hi with rfl | hi
    · cases ho
      exact ⟨Device.honest_limited (some 30)
        (by simp [Failure.Genuine, Device.full, Failure.chain]), nofun⟩
    · cases List.mem_singleton.mp hi
      cases ho
      exact trivial
  have hended : (run 9 .background m₀).1 = .ended none := by cases hnew; decide +kernel
  have hsaid : (run 9 .background m₀).2.console.said ≠ [] := by cases hnew; decide +kernel
  have hline : (run 9 .background m₀).2.input.last.line ≠ 0 := by cases hnew; decide +kernel
  obtain ⟨hreceiving, moments, hcourse, hmoments, hnormal⟩ :=
    output_arrives hnew hhonest 9 .background
  refine ⟨m₀, hnew, hhonest, hreceiving, ⟨moments, hcourse, ?_, fun x hx => (hmoments x hx).2⟩,
    hended, hsaid, ?_⟩
  · by_contra hunread
    refine hline (hcourse.story.line_of_unread (fun x hx hreads => hunread ⟨x, hx, hreads⟩) ?_)
    cases hnew
    rfl
  · rcases hnormal hended with
      hnothing | hreceived | ⟨x, failure, -, -, hmasked, ⟨-, hgenuine⟩ | ⟨n, hn⟩⟩
    · exact absurd hnothing hsaid
    · exact hreceived
    · exact absurd hgenuine hmasked
    · cases hn

/-- Output can be lost in silence.  Behind a device that takes everything and whose flush fails as
if the input had ended, a full one is not heard of.  And where there is no stream, nothing is
flushed but by the halt, whose failure is not asked for, so that a piece which was written before
the run is lost. -/
theorem output_lost_in_silence :
    (let device : Device :=
        { onWrite := fun _ bytes => ⟨bytes.length, none⟩, onFlush := fun _ => some .endOfInput }
      ∃ m₀, create [.output (.direct device),
          .tee (.buffered { device := .limited (some 0) false none }),
          .input (.ofText [] (utf8 "7 .\n")) none] = .ok m₀ ∧
        m₀.console.Honest (fun _ => True) ∧ (run 1 .background m₀).1 = .ended none ∧
        (run 1 .background m₀).2.console.said = utf8 "\n> " ∧
        (run 1 .background m₀).2.console.outlets.map Outlet.received = [[], utf8 "\n> ", []]) ∧
    ∃ m₀ m, create [.output (.buffered { device := .limited (some 0) false none })] = .ok m₀ ∧
      write (utf8 "abc") m₀ = .ok () m ∧ (run 1 .background m).1 = .ended none ∧
      (run 1 .background m).2.console.outlets.map Outlet.received = [[], []] := by
  refine ⟨⟨_, rfl, ?_, by decide +kernel, by decide +kernel, by decide +kernel⟩, ?_⟩
  · intro i hi o ho
    rcases List.mem_cons.mp hi with rfl | hi
    · cases ho
      exact ⟨fun _ _ _ => Nat.le_refl _, fun _ _ _ _ => trivial, fun _ _ _ => trivial⟩
    · cases List.mem_singleton.mp hi
      cases ho
      exact ⟨Device.honest_limited (some 0) trivial, nofun⟩
  · obtain ⟨m₀, hnew⟩ : ∃ m₀, create [.output (.buffered
        { device := .limited (some 0) false none })] = .ok m₀ := ⟨_, rfl⟩
    have hfailure : (m₀.console.hand .chars (utf8 "abc")).1 = none := by cases hnew; decide +kernel
    have hspeak : speak (Console.write (utf8 "abc")) m₀ = .ok none { m₀ with
        console := (m₀.console.hand .chars (utf8 "abc")).2 } := by
      rw [← hfailure]
      rfl
    have hwrite : write (utf8 "abc") m₀ = .ok () { m₀ with
        console := (m₀.console.hand .chars (utf8 "abc")).2 } := bind_of_ok hspeak
    refine ⟨m₀, _, hnew, hwrite, ?_, ?_⟩
    · cases hnew; decide +kernel
    · cases hnew; decide +kernel

end Machine

end ColonMachine
