import ColonMachine.Proofs.Composition
import ColonMachine.Proofs.Course
import ColonMachine.Proofs.Sinks

/-!
# Machines that differ in their consoles

Two machines are **twins** if they have the same engine and the same source.  Their traces may
differ, and their consoles are only known to compare as `R` says.

If `R` is a `Comparison`, which is to say that no output fails under it and that it outlasts
whatever sessions do with consoles, then twins stay twins: every action runs in **lockstep**
(`Composed.lockstep`, by an induction over what actions are made of), and so do whole runs
(`lockstep_exec`, `ran_of_matches`).  So the engine and the source never learn more about a console
than that it does not fail.
-/

namespace ColonMachine

/-! ## Comparing consoles -/

/-- Nothing has failed on either side, and the consoles still compare. -/
structure Both (R : Console → Console → Prop) (r r' : Option Failure × Console) : Prop where
  left : r.1 = none
  right : r'.1 = none
  consoles : R r.2 r'.2

/-- A comparison of consoles under which nothing fails, and which is kept by all that is done with
them. -/
structure Comparison (R : Console → Console → Prop) : Prop where
  hand : ∀ {c d}, R c d → ∀ manner piece, Both R (c.hand manner piece) (d.hand manner piece)
  prompt : ∀ {c d}, R c d → ∀ mode, Both R (c.showPrompt mode) (d.showPrompt mode)
  /-- The message of a diagnostic is dressed up by each in its own way. -/
  dressed : ∀ {c d}, R c d →
    ∀ message, Both R (c.write (c.style message)) (d.write (d.style message))
  reported : ∀ {c d}, R c d → ∀ reported, R { c with reported } { d with reported }
  settle : ∀ {c d}, R c d → Both R c.settle d.settle
  flush : ∀ {c d}, R c d → Both R c.flush d.flush ∧ c.flush.2.Flushed ∧ d.flush.2.Flushed

variable {R : Console → Console → Prop} {c d : Console}

lemma Comparison.write (hR : Comparison R) (h : R c d) (t : Text) :
    Both R (c.write t) (d.write t) := by
  rw [Console.write, Console.write]
  split_ifs
  · exact ⟨rfl, rfl, h⟩
  · exact hR.hand h .chars t

/-! ## Reading -/

namespace Source

/-- The same came of reading on both sides. -/
structure Alike {α : Type} (R : Console → Console → Prop) (r r' : α × Source × Console) : Prop where
  result : r.1 = r'.1
  source : r.2.1 = r'.2.1
  consoles : R r.2.2 r'.2.2

variable (hR : Comparison R) (mode : Mode)
include hR

lemma announce_both (src : Source) (h : R c d) :
    Both R (src.announce (Console.hooks mode) c) (src.announce (Console.hooks mode) d) := by
  rw [announce, announce]
  split_ifs
  · obtain ⟨hleft, hright, hprompt⟩ := hR.prompt h mode
    simp only [Console.hooks]
    generalize c.showPrompt mode = left at hleft hprompt
    generalize d.showPrompt mode = right at hright hprompt
    obtain ⟨_, c1⟩ := left
    obtain ⟨_, d1⟩ := right
    cases hleft
    cases hright
    exact hR.settle hprompt
  · exact hR.settle h

/-- Reading from the current stream on, if what comes after its end is alike. -/
lemma alike_readOn {src : Source} (stream : Stream) (h : R c d)
    (hqueued : ∀ {c d}, R c d → Alike R (readQueued (Console.hooks mode) src.queue src c)
      (readQueued (Console.hooks mode) src.queue src d)) :
    Alike R (src.readOn (Console.hooks mode) stream c)
      (src.readOn (Console.hooks mode) stream d) := by
  obtain ⟨hleft, hright, hannounced⟩ := announce_both hR mode src h
  rw [readOn, readOn, attempt, attempt]
  generalize src.announce (Console.hooks mode) c = left at hleft hannounced
  generalize src.announce (Console.hooks mode) d = right at hright hannounced
  obtain ⟨_, c1⟩ := left
  obtain ⟨_, d1⟩ := right
  cases hleft
  cases hright
  rcases stream.lines with _ | ⟨line, rest⟩
  · rcases stream.failure with _ | failure
    · exact hqueued hannounced
    · exact ⟨rfl, rfl, hannounced⟩
  · exact ⟨rfl, rfl, hannounced⟩

lemma alike_readQueued (queue : List Stream) (src : Source) (h : R c d) :
    Alike R (readQueued (Console.hooks mode) queue src c)
      (readQueued (Console.hooks mode) queue src d) := by
  induction queue generalizing src c d with
  | nil => exact ⟨rfl, rfl, h⟩
  | cons stream queue ih =>
      rw [readQueued_cons, readQueued_cons]
      exact alike_readOn hR mode stream h fun h => ih _ h

lemma alike_readLine (src : Source) (h : R c d) :
    Alike R (src.readLine (Console.hooks mode) c) (src.readLine (Console.hooks mode) d) := by
  rcases hcurrent : src.current with _ | stream
  · rw [readLine_of_none hcurrent, readLine_of_none hcurrent]
    exact alike_readQueued hR mode _ src h
  · rw [readLine_of_some hcurrent, readLine_of_some hcurrent]
    exact alike_readOn hR mode stream h fun h => alike_readQueued hR mode _ src h

lemma alike_nextWord (src : Source) (h : R c d) :
    Alike R (src.nextWord (Console.hooks mode) c) (src.nextWord (Console.hooks mode) d) := by
  obtain ⟨hresult, hsource, hread⟩ := alike_readLine hR mode src h
  rw [nextWord, nextWord]
  split_ifs
  · generalize src.readLine (Console.hooks mode) c = left at hresult hsource hread
    generalize src.readLine (Console.hooks mode) d = right at hresult hsource hread
    obtain ⟨_ | failure, src1, c1⟩ := left
    all_goals
      obtain ⟨_, _, d1⟩ := right
      cases hresult
      cases hsource
      exact ⟨rfl, rfl, hread⟩
  · exact ⟨rfl, rfl, h⟩

end Source

/-! ## Actions -/

namespace Machine

variable {α β : Type} {a b a' b' : Machine}

/-- The machines have the same engine and the same source. -/
structure Twins (R : Console → Console → Prop) (a b : Machine) : Prop where
  engine : a.engine = b.engine
  input : a.input = b.input
  consoles : R a.console b.console

/-- The same has come of an action in both machines.  If the session was halted, both have
flushed. -/
inductive Matches (R : Console → Console → Prop) : Result α → Result α → Prop where
  | ok (x : α) {a b : Machine} (h : Twins R a b) : Matches R (.ok x a) (.ok x b)
  | raised {i : Interrupt} {a b : Machine} (hi : ∀ cause, i ≠ .halt cause) (h : Twins R a b) :
      Matches R (.error i a) (.error i b)
  | halted (cause : Option Failure) {a b : Machine} (h : Twins R a b) (ha : a.console.Flushed)
      (hb : b.console.Flushed) : Matches R (.error (.halt cause) a) (.error (.halt cause) b)

/-- Twins stay twins. -/
def Lockstep (R : Console → Console → Prop) (act : Act α) : Prop :=
  ∀ ⦃a b⦄, Twins R a b → Matches R (act a) (act b)

lemma Twins.noted (h : Twins R a b) (mark : Text) (message : Machine → Text) :
    Twins R (noted mark message a) (noted mark message b) := by
  refine ⟨?_, ?_, ?_⟩
  · rw [engine_noted, engine_noted, h.engine]
  · rw [input_noted, input_noted, h.input]
  · rw [console_noted, console_noted]
    exact h.consoles

/-- The same has come of what was done first, and what follows runs in lockstep. -/
lemma Matches.bind {act act' : Act α} {next : α → Act β} (h : Matches R (act a) (act' b))
    (hnext : ∀ x, Lockstep R (next x)) : Matches R ((act >>= next) a) ((act' >>= next) b) := by
  rw [bind_apply, bind_apply]
  generalize act a = ra at h
  generalize act' b = rb at h
  cases h with
  | ok x hab => exact hnext x hab
  | raised hi hab => exact .raised hi hab
  | halted cause hab ha hb => exact .halted cause hab ha hb

/-- A fault that is caught on one side is caught on the other. -/
lemma Matches.attempt {act act' : Act α} (h : Matches R (act a) (act' b)) :
    Matches R (attempt act a) (attempt act' b) := by
  rw [ColonMachine.attempt, ColonMachine.attempt]
  generalize act a = ra at h
  generalize act' b = rb at h
  cases h with
  | ok x hab => exact .ok _ hab
  | @raised i _ _ hi hab =>
      cases i with
      | fault what => exact .ok _ hab
      | halt cause => exact absurd rfl (hi cause)
      | panic payload => exact .raised hi hab
      | abandon => exact .raised hi hab
  | halted cause hab ha hb => exact .halted cause hab ha hb

namespace Lockstep

lemma bind {act : Act α} {next : α → Act β} (h : Lockstep R act)
    (hnext : ∀ x, Lockstep R (next x)) :
    Lockstep R (act >>= next) := fun _ _ hab => (h hab).bind hnext

lemma attempt {act : Act α} (h : Lockstep R act) : Lockstep R (attempt act) :=
  fun _ _ hab => (h hab).attempt

/-- The induction is over what is left to be read. -/
lemma loop {body : Act (Option α)} {act : Act α} (h : Lockstep R body)
    (hrepeats : Repeats body act) : Lockstep R act := by
  intro a b hab
  induction hpending : a.pending using Nat.strongRecOn generalizing a b with
  | _ n ih =>
    have hbody := h hab
    generalize ha : body a = ra at hbody
    generalize hb : body b = rb at hbody
    cases hbody with
    | ok x hab1 =>
        cases x with
        | none =>
            obtain ⟨hagain, hless⟩ := hrepeats.again ha
            rw [hagain, (hrepeats.again hb).1]
            exact ih _ (hpending ▸ hless) hab1 rfl
        | some x =>
            rw [hrepeats.done ha, hrepeats.done hb]
            exact .ok x hab1
    | raised hi hab1 =>
        rw [hrepeats.broken ha, hrepeats.broken hb]
        exact .raised hi hab1
    | halted cause hab1 ha1 hb1 =>
        rw [hrepeats.broken ha, hrepeats.broken hb]
        exact .halted cause hab1 ha1 hb1

end Lockstep

lemma lockstep_modify {f : Machine → Machine} (hf : ∀ a b, Twins R a b → Twins R (f a) (f b)) :
    Lockstep R (modify f : Act Unit) := fun a b hab => .ok () (hf a b hab)

lemma lockstep_note (mark : Text) (message : Machine → Text) : Lockstep R (note mark message) :=
  lockstep_modify fun _ _ hab => hab.noted mark message

lemma matches_speak {act act' : Console → Option Failure × Console} (hab : Twins R a b)
    (h : Both R (act a.console) (act' b.console)) :
    Matches R ((speak act >>= haltIf) a) ((speak act' >>= haltIf) b) := by
  obtain ⟨hleft, hright, hconsoles⟩ := h
  rw [bind_apply, bind_apply, speak, speak]
  simp only [hleft, hright]
  exact .ok () ⟨hab.engine, hab.input, hconsoles⟩

lemma halt_of_none (cause : Option Failure) (h : a.console.flush.1 = none) :
    (halt cause : Act α) a = .error (.halt cause) (noted (utf8 "#")
      (fun _ => utf8 "halt: " ++ (cause.map Failure.wording).getD (utf8 "<nil>"))
      { a with console := a.console.flush.2 }) := by
  have hhalt :
      (halt cause : Act α) a = .error (.halt (cause <|> a.console.flush.1)) (noted (utf8 "#")
      (fun _ => utf8 "halt: "
        ++ ((cause <|> a.console.flush.1).map Failure.wording).getD (utf8 "<nil>"))
      { a with console := a.console.flush.2 }) := rfl
  have hcause : (cause <|> none) = cause := by cases cause <;> rfl
  rw [hhalt, h, hcause]

lemma exec_bind {context : Context} (hrunning : a.engine.running = true) (fuel : ℕ) :
    exec (fuel + 1) context a = (tick context >>= exec fuel) a := by
  rw [bind_apply]
  cases htick : tick context a with
  | ok context' a' => exact exec_tick hrunning htick fuel
  | error i a' => exact exec_broken hrunning htick fuel

section Comparison

variable (hR : Comparison R)
include hR

lemma lockstep_halt (cause : Option Failure) : Lockstep R (halt cause : Act α) := by
  intro a b hab
  obtain ⟨⟨hleft, hright, hconsoles⟩, ha, hb⟩ := hR.flush hab.consoles
  rw [halt_of_none cause hleft, halt_of_none cause hright]
  refine .halted cause (Twins.noted ?_ _ _) ?_ ?_
  · exact ⟨hab.engine, hab.input, hconsoles⟩
  · rw [console_noted]
    exact ha
  · rw [console_noted]
    exact hb

lemma lockstep_haltIf (failure? : Option Failure) : Lockstep R (haltIf failure?) := by
  cases failure? with
  | none => exact fun _ _ hab => .ok () hab
  | some failure => exact lockstep_halt hR _

lemma lockstep_write (t : Text) : Lockstep R (write t) :=
  fun _ _ hab => matches_speak hab (hR.write hab.consoles t)

lemma lockstep_print (t : Text) : Lockstep R (print t) :=
  fun _ _ hab => matches_speak hab (hR.hand hab.consoles .bytes t)

lemma lockstep_report (message : Text) : Lockstep R (report message) := by
  refine (lockstep_note _ _).bind fun _ a b hab => ?_
  rw [get_bind, get_bind]
  -- the two machines write different texts here
  refine (matches_speak hab (hR.dressed hab.consoles message)).bind fun _ => ?_
  refine (lockstep_write hR _).bind fun _ => (lockstep_modify ?_).bind fun _ => lockstep_modify ?_
  · exact fun _ _ hab => ⟨hab.engine, hab.input, hR.reported hab.consoles true⟩
  · exact fun _ _ hab => ⟨hab.engine, by rw [hab.input], hab.consoles⟩

lemma lockstep_nextWord : Lockstep R nextWord := by
  intro a b hab
  obtain ⟨hresult, hsource, hconsoles⟩ :=
    Source.alike_nextWord hR a.engine.mode a.input hab.consoles
  rw [nextWord_eq, nextWord_eq, ← hab.engine, ← hab.input, ← hresult, ← hsource]
  generalize (a.input.nextWord (Console.hooks a.engine.mode) a.console).1 = word
  have hread : Twins R
      { a with
        input := (a.input.nextWord (Console.hooks a.engine.mode) a.console).2.1
        console := (a.input.nextWord (Console.hooks a.engine.mode) a.console).2.2 }
      { b with
        engine := a.engine
        input := (a.input.nextWord (Console.hooks a.engine.mode) a.console).2.1
        console := (a.input.nextWord (Console.hooks a.engine.mode) b.console).2.2 } :=
    ⟨rfl, rfl, hconsoles⟩
  rcases word with failure | _ | word
  · exact lockstep_halt hR _ hread
  · exact .ok none hread
  · exact .ok (some word) (hread.noted _ _)

/-- **The step lemma.**  Every action runs in lockstep. -/
lemma Composed.lockstep {act : Act α} (h : Composed act) : Lockstep R act := by
  induction h with
  | pure x => exact fun _ _ hab => .ok x hab
  | bind _ _ ih ihnext => exact ih.bind ihnext
  | look hsame _ ih =>
      intro a b hab
      rw [get_bind, get_bind, hsame a b hab.engine (by rw [hab.input])]
      exact ih b hab
  | throw hi => exact fun _ _ hab => .raised hi hab
  | engine f =>
      exact lockstep_modify fun _ _ hab => ⟨congrArg f hab.engine, hab.input, hab.consoles⟩
  | prompting on =>
      exact lockstep_modify fun _ _ hab => ⟨hab.engine, by rw [hab.input], hab.consoles⟩
  | note mark message => exact lockstep_note mark message
  | write t => exact lockstep_write hR t
  | print t => exact lockstep_print hR t
  | report message => exact lockstep_report hR message
  | nextWord => exact lockstep_nextWord hR
  | attempt _ ih => exact ih.attempt
  | loop _ hrepeats ih => exact ih.loop hrepeats

/-! ## Runs -/

lemma lockstep_tick (context : Context) : Lockstep R (tick context) := by
  intro a b hab
  rw [tick_eq, tick_eq]
  refine (((composed_instruct.lockstep hR).bind fun _ => ?_) hab)
  exact (lockstep_haltIf hR _).bind fun _ _ _ hab => .ok _ hab

/-- **The run lemma.**  The induction is over the instructions. -/
lemma lockstep_exec (fuel : ℕ) (context : Context) : Lockstep R (exec fuel context) := by
  induction fuel generalizing context with
  | zero =>
      intro a b hab
      change Matches R (.ok (!a.engine.running) a) (.ok (!b.engine.running) b)
      rw [hab.engine]
      exact .ok _ hab
  | succ fuel ih =>
      intro a b hab
      by_cases hrunning : a.engine.running = true
      · rw [exec_bind hrunning, exec_bind (hab.engine ▸ hrunning)]
        exact (lockstep_tick hR context).bind ih hab
      · have hstopped : a.engine.running = false := by simpa using hrunning
        rw [exec_stopped hstopped, exec_stopped (hab.engine ▸ hstopped)]
        exact .ok true hab

end Comparison

/-- The same has come of a run of both machines.  If the runs have ended, both have flushed. -/
structure Ran (R : Console → Console → Prop) (r r' : Outcome × Machine) : Prop where
  outcome : r.1 = r'.1
  machines : Twins R r.2 r'.2
  flushed : ∀ failure?, r.1 = .ended failure? → r.2.console.Flushed ∧ r'.2.console.Flushed

lemma Twins.becomes (h : Twins R a b) (ha : Becomes a a.engine a') (hb : Becomes b b.engine b') :
    Twins R a' b' := by
  refine ⟨?_, ?_, ?_⟩
  · rw [ha.engine, hb.engine, h.engine]
  · rw [ha.input, hb.input, h.input]
  · rw [ha.console, hb.console]
    exact h.consoles

lemma ran_of_matches (hR : Comparison R) (ha : a.IsSound) {fuel fuel' : ℕ}
    {context context' : Context}
    (h : Matches R (exec fuel context (a.indent true)) (exec fuel' context' (b.indent true))) :
    Ran R (run fuel context a) (run fuel' context' b) := by
  have hcourse := course_exec (m := a.indent true) ⟨ha.engine, ha.input⟩ fuel context
  generalize hra : exec fuel context (a.indent true) = ra at h
  generalize hrb : exec fuel' context' (b.indent true) = rb at h
  cases h with
  | @ok stopped a1 b1 hab =>
      cases stopped with
      | false =>
          rw [run_of_unfinished hra, run_of_unfinished hrb]
          exact ⟨rfl, ⟨hab.engine, hab.input, hab.consoles⟩, fun _ hended => by cases hended⟩
      | true =>
          obtain ⟨⟨hleft, hright, hconsoles⟩, ha1, hb1⟩ := hR.flush hab.consoles
          rw [run_of_flushed hra hleft, run_of_flushed hrb hright]
          exact ⟨rfl, ⟨hab.engine, hab.input, hconsoles⟩, fun _ _ => ⟨ha1, hb1⟩⟩
  | raised hi hab =>
      obtain ⟨failure, rfl, -⟩ := hcourse.of_error hra
      exact absurd rfl (hi _)
  | halted cause hab ha1 hb1 =>
      obtain ⟨failure, hcause, -⟩ := hcourse.of_error hra
      cases hcause
      obtain ⟨a2, hruna, ha2⟩ := run_of_halted hra
      obtain ⟨b2, hrunb, hb2⟩ := run_of_halted hrb
      rw [hruna, hrunb]
      refine ⟨rfl, hab.becomes ha2 hb2, fun _ _ => ⟨?_, ?_⟩⟩
      · rw [ha2.console]
        exact ha1
      · rw [hb2.console]
        exact hb1

end Machine

end ColonMachine
