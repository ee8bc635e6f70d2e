import ColonMachine.Proofs.Abreast
import ColonMachine.Proofs.Lines
import ColonMachine.Proofs.Refinement
import ColonMachine.Proofs.Spelling

/-!
# Layout does not matter

Two sessions that are given the same words, on whatever lines and in whatever streams, end with the
same output and in the same state, if neither reports a diagnostic (`run_reflowed`).

The two runs do not take the same number of instructions: one of them may go round the top level
loop to reach the next line where the other one finds the next word on the same line, and a word
that is called leaves the prompt instruction in both.  So they are compared whenever both are about
to read a word (`Awaits`), and from there, a word is read and dispatched in both.

* **Reading** the next word takes any number of line ends, which leave everything else as it was
  (`exists_word`, `exists_end`).
* **A word that was called** is executed instruction by instruction, in step (`abreast_step`), until
  it returns to the top level loop, which goes round to the next word (`runs_together`).
* With every word that is read there is less input left, so the runs come to an end, and do so
  together (`ends_together`).
-/

namespace ColonMachine

/-- The words of a stream. -/
def Stream.words (s : Stream) : List Text := s.lines.flatMap Text.words

lemma Source.flatten_unreadIn {queue : List Stream} (h : ∀ s ∈ queue, s.failure = none) :
    (unreadIn queue).flatten = queue.flatMap Stream.words := by
  induction queue with
  | nil => rfl
  | cons s queue ih =>
      have hs : s.failure = none := h s List.mem_cons_self
      have hqueue := ih fun s hs => h s (List.mem_cons_of_mem _ hs)
      simp [unreadIn, Stream.words, hs, hqueue, List.flatMap_def]

/-- Every outlet in use has received `out` since the console was `c₀`. -/
def Console.Received (c₀ : Console) (out : Text) (c : Console) : Prop :=
  ∀ i ∈ c₀.route.outlets, ∀ o, c₀.outlets[i]? = some o → o ≠ .discard →
    ∃ o', c.outlets[i]? = some o' ∧ o'.received = o.content ++ out

lemma Console.Heard.received {c₀ c : Console} {out : Text} (h : c₀.Heard out c) (hc : c.Flushed) :
    c₀.Received out c := by
  intro i hi o ho hkeeps
  obtain ⟨o', ho', htook⟩ := h.outlets.changed i hi o ho
  refine ⟨o', ho', ?_⟩
  rw [hc i (by rw [h.route]; exact hi) o' ho', htook.content hkeeps]

namespace Machine

variable {c c' : Console} {a b a' b' m m' p q : Machine} {w : Text} {ws : List Text}
  {lines : List (List Text)} {text : Text}

/-! ## Runs without diagnostics -/

/-- No diagnostic is reported in the run.  A diagnostic leaves a flag on the console until something
else is written, and since it drops the rest of the line, that takes another instruction; so it is
enough that the flag is not there between instructions. -/
def Quiet (m : Machine) : Prop :=
  ∀ fuel stopped m', exec fuel .background m = .ok stopped m' → m'.console.reported = false

lemma Quiet.leads (h : Quiet a) (hleads : Leads a b) : Quiet b := by
  obtain ⟨n, hn⟩ := hleads
  intro fuel stopped m' hexec
  exact h (fuel + n) stopped m' ((hn fuel).trans hexec)

lemma not_quiet_of_tick (hrunning : a.engine.running = true)
    (htick : tick .background a = .ok .background b) (hreported : b.console.reported = true) :
    ¬ Quiet a := by
  intro h
  have := h 1 _ b (exec_tick hrunning htick 0)
  rw [hreported] at this
  cases this

lemma not_quiet_of_reported (hrunning : a.engine.running = true) (h : Reported (step a)) :
    ¬ Quiet a := by
  obtain ⟨_, b, hstep, -, hreported⟩ := h
  exact not_quiet_of_tick hrunning (tick_of_ok hstep) hreported

/-- A fault is reported. -/
lemma not_quiet_of_fault {what : Fault} (hc : c.Steady) (hrunning : a.engine.running = true)
    (hstep : step a = .error (.fault what) b) (hb : c.Heard text b.console) : ¬ Quiet a := by
  set b1 := noted (utf8 "!") (fun m => utf8 "fault: " ++ what.message ++ utf8 " at " ++
    m.input.last.text ++ utf8 " " ++ m.input.text.quote) b with hb1
  obtain ⟨_, b2, hreport, -, hreported⟩ :=
    reported_report hc (a := b1) (by rw [hb1, console_noted]; exact hb)
      (utf8 "Error: " ++ what.message)
  have htick := tick_of_fault hstep
  rw [recover, bind_apply, bind_of_ok (show note _ _ b = .ok () b1 from rfl),
    bind_of_ok hreport] at htick
  exact not_quiet_of_tick hrunning htick hreported

/-- A word that ends in a diagnostic is the last one of its line. -/
lemma not_quiet_of_read (hrunning : a.engine.running = true)
    (hm : m.engine.running = true) (hstep : step a = prompt m) (hread : Reported (read m)) :
    ¬ Quiet a := by
  obtain ⟨more, m1, hread, hbuffer, hreported⟩ := hread
  cases more with
  | false =>
      exact not_quiet_of_tick hrunning (tick_of_ok (hstep.trans (prompt_ended hm hread))) hreported
  | true =>
      rw [prompt_again hm hread] at hstep
      cases hm1 : m1.engine.running with
      | false =>
          have hstopped : prompt m1 = .ok () m1 := prompt_stopped (by simp [hm1])
          exact not_quiet_of_tick hrunning (tick_of_ok (hstep.trans hstopped)) hreported
      | true =>
          obtain ⟨m2, hnext, -, hconsole, -⟩ := nextWord_of_mark hbuffer
          have hended := prompt_ended hm1 (bind_of_ok hnext)
          exact not_quiet_of_tick hrunning (tick_of_ok (hstep.trans hended))
            (by rw [hconsole]; exact hreported)

lemma quiet_of_step (hrunning : a.engine.running = true) (hreported : a.console.reported = false)
    (hstep : step a = .ok () b) (h : Quiet b) : Quiet a := by
  intro fuel stopped m' hexec
  cases fuel with
  | zero =>
      cases hexec
      exact hreported
  | succ fuel =>
      rw [exec_tick hrunning (tick_of_ok hstep)] at hexec
      exact h fuel stopped m' hexec

lemma quiet_of_halt {cause : Option Failure} (hrunning : a.engine.running = true)
    (hreported : a.console.reported = false) (hstep : step a = .error (.halt cause) b) :
    Quiet a := by
  intro fuel stopped m' hexec
  cases fuel with
  | zero =>
      cases hexec
      exact hreported
  | succ fuel =>
      rw [exec_broken hrunning (tick_of_halt hstep)] at hexec
      cases hexec

/-! ## How runs go on -/

/-- Given fuel enough, this comes of the run. -/
def Comes (m : Machine) (r : Result Bool) : Prop :=
  ∃ enough, ∀ fuel ≥ enough, exec fuel .background m = r

lemma Comes.leads {r : Result Bool} (h : Comes b r) (hleads : Leads a b) : Comes a r := by
  obtain ⟨enough, henough⟩ := h
  obtain ⟨n, hn⟩ := hleads
  refine ⟨enough + n, fun fuel hfuel => ?_⟩
  obtain ⟨fuel, rfl⟩ := Nat.exists_eq_add_of_le' (Nat.le_trans (Nat.le_add_left n enough) hfuel)
  rw [hn, henough fuel (by omega)]

lemma comes_of_stopped (h : m.engine.running = false) : Comes m (.ok true m) :=
  ⟨0, fun fuel _ => exec_stopped h fuel⟩

lemma comes_of_halt {cause : Option Failure} (hrunning : a.engine.running = true)
    (hstep : step a = .error (.halt cause) m) : Comes a (.error (.halt cause) m) := by
  refine ⟨1, fun fuel hfuel => ?_⟩
  obtain ⟨fuel, rfl⟩ := Nat.exists_eq_add_of_le' hfuel
  exact exec_broken hrunning (tick_of_halt hstep) fuel

/-- The machine goes on, in a run without diagnostics. -/
structure Runs (m : Machine) : Prop where
  sound : m.IsSound
  running : m.engine.running = true
  limit : 0 < m.engine.limit
  quiet : Quiet m

lemma Runs.next (h : Runs a) (hstep : step a = .ok () b) :
    Leads a b ∧ Descends a b ∧ (b.engine.running = true → Runs b) := by
  have hleads := leads_of_step h.running hstep
  obtain ⟨hlimit, hdescends⟩ := (descends_step h.sound h.limit h.running).of_ok hstep
  refine ⟨hleads, hdescends, fun hrunning => ⟨?_, hrunning, ?_, h.quiet.leads hleads⟩⟩
  · exact (isSound_step h.sound).of_ok hstep
  · rw [hlimit]
    exact h.limit

/-- The instruction that `a` executes next, in a run without diagnostics, is the prompt, and what is
left of it is to be executed by `p`, which goes on. -/
structure Awaits (a p : Machine) : Prop where
  step : step a = prompt p
  running : a.engine.running = true
  quiet : Quiet a
  sound : p.IsSound
  control : p.engine.control = onPrompt
  going : p.engine.running = true
  limit : 0 < p.engine.limit

/-- At its beginning, the top level loop comes to its prompt. -/
lemma Runs.awaits (h : Runs a) (hfn : a.engine.fn = bootId) (hpc : a.engine.pc = -1)
    (hframes : a.engine.frames = []) :
    ∃ p, Becomes a { a.engine with pc := 0 } p ∧ Awaits a p := by
  obtain ⟨p, hp, hstep⟩ := step_prompt ⟨h.sound.engine.get?_boot, hfn, hpc⟩
  refine ⟨p, hp, hstep, h.running, h.quiet, ?_, ?_, ?_, ?_⟩
  · exact hp.isSound h.sound (h.sound.engine.top hfn hframes (Or.inr rfl))
  · rw [hp.engine, Engine.control, hfn, hframes]
    rfl
  · rw [hp.engine]
    exact h.running
  · rw [hp.engine]
    exact h.limit

namespace Awaits

lemma again (h : Awaits a p) (hread : read p = .ok true m) (hrunning : m.engine.running = true) :
    Awaits a m := by
  obtain ⟨hsound, hcontrol⟩ := (isSound_read h.sound h.control).of_ok hread
  have hlimit := ((owed_read h.sound h.control).of_ok hread).1
  exact ⟨h.step.trans (prompt_again h.going hread), h.running, h.quiet, hsound, hcontrol rfl,
    hrunning, by rw [hlimit]; exact h.limit⟩

lemma leaves (h : Awaits a p) (hread : read p = .ok false m) (hrunning : m.engine.running = true) :
    Leads a m ∧ Runs m := by
  have hleads := leads_of_step h.running (h.step.trans (prompt_ended h.going hread))
  have hlimit := ((owed_read h.sound h.control).of_ok hread).1
  exact ⟨hleads, ((isSound_read h.sound h.control).of_ok hread).1, hrunning,
    by rw [hlimit]; exact h.limit, h.quiet.leads hleads⟩

lemma stops {more : Bool} (h : Awaits a p) (hread : read p = .ok more m)
    (hstopped : m.engine.running = false) : Comes a (.ok true m) := by
  have hstep : Machine.step a = .ok () m := by
    rw [h.step]
    cases more with
    | true => exact (prompt_again h.going hread).trans (prompt_stopped (by simp [hstopped]))
    | false => exact prompt_ended h.going hread
  exact (comes_of_stopped hstopped).leads (leads_of_step h.running hstep)

lemma halts {cause : Option Failure} (h : Awaits a p) (hread : read p = .error (.halt cause) m) :
    Comes a (.error (.halt cause) m) :=
  comes_of_halt h.running (h.step.trans (prompt_broken h.going hread))

lemma passes (h : Awaits a p) (hover : LinesOver p q) (hq : q.IsSound) :
    ∃ b, Leads a b ∧ Awaits b q := by
  obtain ⟨b, hleads, hstep, hrunning⟩ := hover.leads h.step h.running h.going
  have hengine := hover.engine
  exact ⟨b, hleads, hstep, hrunning, h.quiet.leads hleads, hq, by rw [hengine]; exact h.control,
    by rw [hengine]; exact h.going, by rw [hengine]; exact h.limit⟩

end Awaits

/-! ## The next word -/

lemma announced_steady (hc : c.Steady) : Announced (c.Heard text) :=
  fun mode src _ h => h.announce hc mode src

namespace Waiting

variable (hc : c.Steady)
include hc

/-- However many blank lines come first: the induction is over the lines. -/
lemma exists_word (h : Waiting (c.Heard text) lines m) (hws : lines.flatten = w :: ws) :
    ∃ m1 m', LinesOver m m1 ∧ m1.IsSound ∧ nextWord m1 = .ok (some w) m' ∧ m'.input.buffer.isSome ∧
      m'.input.rest = ws ∧ c.Heard text m'.console := by
  induction lines generalizing m with
  | nil => cases hws
  | cons line lines ih =>
      cases line with
      | nil =>
          obtain ⟨m2, hover, h2⟩ := h.blank (announced_steady hc)
          obtain ⟨m1, m', hovers, hm1⟩ := ih h2 hws
          exact ⟨m1, m', .head hover hovers, hm1⟩
      | cons w' line =>
          rw [List.flatten_cons, List.cons_append, List.cons.injEq] at hws
          obtain ⟨rfl, rfl⟩ := hws
          obtain ⟨m', hnext, hbuffer, hunread, hconsole⟩ := h.word (announced_steady hc)
          refine ⟨m, m', .refl, h.sound, hnext, by rw [hbuffer]; rfl, ?_, hconsole⟩
          rw [Source.rest, Source.buffered, hbuffer, hunread]
          rfl

lemma exists_end (h : Waiting (c.Heard text) lines m) (hnone : lines.flatten = []) :
    ∃ m1 cause m', LinesOver m m1 ∧ m1.IsSound ∧ nextWord m1 = .error (.halt cause) m' ∧
      m'.input.rest = [] ∧ c.Heard text m'.console ∧ m'.console.Flushed := by
  rw [← List.append_nil lines] at h
  obtain ⟨m1, hover, h1⟩ := h.skip (announced_steady hc) (List.flatten_eq_nil_iff.mp hnone)
  obtain ⟨cause, m', hnext, hshown, hflushed⟩ :=
    nextWord_ended hc (m := m1) ⟨text, h1.console, rfl⟩ h1.buffer h1.unread
  refine ⟨m1, cause, m', hover, h1.sound, hnext, ?_, hshown.heard, hflushed⟩
  rw [← hshown.rest]
  simp [session, Source.buffered, h1.buffer, h1.unread]

end Waiting

namespace Awaits

/-- What is left of the current line is used up first. -/
lemma waits (h : Awaits a p) (hheard : c.Heard text p.console) (hline : p.input.buffered = []) :
    ∃ p', LinesOver p p' ∧ Waiting (c.Heard text) p.input.unread p' := by
  cases hbuffer : p.input.buffer with
  | none => exact ⟨p, .refl, h.sound, h.control, h.going, hbuffer, rfl, hheard⟩
  | some line =>
      obtain rfl : line = [] := by simpa [Source.buffered, hbuffer] using hline
      obtain ⟨p', hover, hwaiting⟩ := lineOver_of_mark h.sound h.control h.going hheard hbuffer
      exact ⟨p', .single hover, hwaiting⟩

variable (hc : c.Steady)
include hc

lemma exists_word (h : Awaits a p) (hheard : c.Heard text p.console)
    (hrest : p.input.rest = w :: ws) :
    ∃ b q m, Leads a b ∧ Awaits b q ∧ q.pending ≤ p.pending ∧ nextWord q = .ok (some w) m ∧
      m.engine = p.engine ∧ m.input.buffer.isSome ∧ m.input.rest = ws ∧ c.Heard text m.console := by
  cases hline : p.input.buffered with
  | cons w' line =>
      rw [Source.rest, hline, List.cons_append, List.cons.injEq] at hrest
      obtain ⟨rfl, rfl⟩ := hrest
      have hbuffer : p.input.buffer = some (w' :: line) := by
        cases hbuffer : p.input.buffer <;> simp_all [Source.buffered]
      obtain ⟨m, hnext, hengine, hconsole, hinput⟩ := nextWord_of_word hbuffer
      exact ⟨a, p, m, leads_refl a, h, Nat.le_refl _, hnext, hengine, by rw [hinput]; rfl,
        by rw [hinput]; rfl, by rw [hconsole]; exact hheard⟩
  | nil =>
      rw [Source.rest, hline, List.nil_append] at hrest
      obtain ⟨p1, hover, hwaiting⟩ := h.waits hheard hline
      obtain ⟨q, m, hovers, hq, hnext, hbuffer, hws, hm⟩ := hwaiting.exists_word hc hrest
      have hovers : LinesOver p q := hover.trans hovers
      obtain ⟨b, hleads, hb⟩ := h.passes hovers hq
      refine ⟨b, q, m, hleads, hb, hovers.pending, hnext, ?_, hbuffer, hws, hm⟩
      rw [((talks_nextWord q).of_ok hnext).1, hovers.engine]

lemma exists_end (h : Awaits a p) (hheard : c.Heard text p.console) (hrest : p.input.rest = []) :
    ∃ cause m, Comes a (.error (.halt cause) m) ∧ m.engine = p.engine ∧ m.input.rest = [] ∧
      c.Heard text m.console ∧ m.console.Flushed := by
  rw [Source.rest, List.append_eq_nil_iff] at hrest
  obtain ⟨p1, hover, hwaiting⟩ := h.waits hheard hrest.1
  obtain ⟨q, cause, m, hovers, hq, hnext, hm⟩ := hwaiting.exists_end hc hrest.2
  have hovers : LinesOver p q := hover.trans hovers
  obtain ⟨b, hleads, hb⟩ := h.passes hovers hq
  refine ⟨cause, m, (hb.halts (bind_of_error hnext)).leads hleads, ?_, hm⟩
  rw [((talks_nextWord q).of_error hnext).2, hovers.engine]

end Awaits

/-! ## Both runs -/

/-- Both runs come to an end in the same way, level with each other. -/
inductive EndTogether (c c' : Console) (a b : Machine) : Prop where
  | stopped {a' b' : Machine} (ha : Comes a (.ok true a')) (hb : Comes b (.ok true b'))
      (h : Level c c' a' b') : EndTogether c c' a b
  | halted {cause cause' : Option Failure} {a' b' : Machine}
      (ha : Comes a (.error (.halt cause) a')) (hb : Comes b (.error (.halt cause') b'))
      (h : Level c c' a' b') (hflushed : a'.console.Flushed) (hflushed' : b'.console.Flushed) :
      EndTogether c c' a b

/-- Both runs come to where a word is to be read, level with each other, and one of them has less
than `n` to read then. -/
def AwaitTogether (c c' : Console) (n : ℕ) (a b : Machine) : Prop :=
  ∃ a' b' p q, Leads a a' ∧ Leads b b' ∧ Awaits a' p ∧ Awaits b' q ∧ Level c c' p q ∧ p.pending < n

lemma EndTogether.leads (h : EndTogether c c' a' b') (ha : Leads a a') (hb : Leads b b') :
    EndTogether c c' a b := by
  cases h with
  | stopped ha' hb' hab => exact .stopped (ha'.leads ha) (hb'.leads hb) hab
  | halted ha' hb' hab hflushed hflushed' =>
      exact .halted (ha'.leads ha) (hb'.leads hb) hab hflushed hflushed'

lemma AwaitTogether.leads {n n' : ℕ} (h : AwaitTogether c c' n a' b') (ha : Leads a a')
    (hb : Leads b b') (hn : n ≤ n') : AwaitTogether c c' n' a b := by
  obtain ⟨a1, b1, p, q, ha1, hb1, hp, hq, hpq, hless⟩ := h
  exact ⟨a1, b1, p, q, ha.trans ha1, hb.trans hb1, hp, hq, hpq, Nat.lt_of_lt_of_le hless hn⟩

section Steady

variable (hc : c.Steady) (hc' : c'.Steady)
include hc hc'

/-- **Instructions are in step**, unless a diagnostic is reported, or a line is to be read. -/
lemma abreast_step (ha : Sound a.engine) (hab : Abreast c c' a b) :
    (a.engine.fn = bootId ∧ a.engine.pc = -1 ∧ a.engine.frames = []) ∨
      Even c c' (step a) (step b) ∨ Reported (step a) ∨ Reported (step b) := by
  have hboot := ha.get?_boot
  cases stepping ha with
  | line hfn hpc hframes => exact Or.inl ⟨hfn, hpc, hframes⟩
  | jump hfn hpc _ hm1 hstep =>
      rw [hab.engine] at hboot hfn hpc hm1
      obtain ⟨b1, hb1, hstep'⟩ := step_jump ⟨hboot, hfn, hpc⟩
      rw [hstep, hstep']
      exact Or.inr (Or.inl (.ok () (hab.becomes hm1 hb1)))
  | back hspot hframes _ hm1 hstep =>
      rw [hab.engine] at hspot hframes hm1
      obtain ⟨b1, hb1, hstep'⟩ := step_return hspot hframes
      rw [hstep, hstep']
      exact Or.inr (Or.inl (.ok () (hab.becomes hm1 hb1)))
  | push hspot hm1 hstep =>
      rw [hab.engine] at hspot hm1
      obtain ⟨b1, hb1, hstep'⟩ := step_push hspot
      rw [hstep, hstep']
      exact Or.inr (Or.inl (.ok () (hab.becomes hm1 hb1)))
  | call hspot _ _ _ hm1 hstep =>
      rw [hab.engine] at hspot hm1
      obtain ⟨b1, hb1, hstep'⟩ := step_call hspot
      rw [hstep, hstep']
      exact Or.inr (inStepUnless_call hc hc' _ _ _ (hab.becomes hm1 hb1))

/-- **A word in progress** comes to its end in both runs, or both end before that. -/
lemma runs_together (ha : Runs a) (hb : Runs b) (hab : Abreast c c' a b) :
    EndTogether c c' a b ∨ AwaitTogether c c' (a.owed + 1) a b := by
  induction a using wellFounded_descends.induction generalizing b with
  | _ a ih =>
      rcases abreast_step hc hc' ha.sound.engine hab with
        ⟨hfn, hpc, hframes⟩ | heven | hreported | hreported
      · obtain ⟨p, hp, hawaits⟩ := ha.awaits hfn hpc hframes
        rw [hab.engine] at hfn hpc hframes hp
        obtain ⟨q, hq, hawaits'⟩ := hb.awaits hfn hpc hframes
        refine Or.inr ⟨a, b, p, q, leads_refl a, leads_refl b, hawaits, hawaits',
          (hab.becomes hp hq).toLevel, Nat.lt_succ_of_le ?_⟩
        rw [hp.pending]
        exact pending_le_owed a
      · generalize hstep : step a = r at heven
        generalize hstep' : step b = r' at heven
        cases heven with
        | @ok _ a1 b1 hab1 =>
            obtain ⟨hleads, hdescends, ha1⟩ := ha.next hstep
            obtain ⟨hleads', -, hb1⟩ := hb.next hstep'
            cases hrunning : a1.engine.running with
            | false =>
                have hrunning' : b1.engine.running = false := by rw [← hab1.engine, hrunning]
                exact Or.inl (.stopped ((comes_of_stopped hrunning).leads hleads)
                  ((comes_of_stopped hrunning').leads hleads') hab1.toLevel)
            | true =>
                have hrunning' : b1.engine.running = true := by rw [← hab1.engine, hrunning]
                have howed : a1.owed ≤ a.owed := by
                  rcases hdescends with hless | ⟨hle, -⟩ <;> omega
                rcases ih a1 hdescends (ha1 hrunning) (hb1 hrunning') hab1 with hends | hawaits
                · exact Or.inl (hends.leads hleads hleads')
                · exact Or.inr (hawaits.leads hleads hleads' (Nat.succ_le_succ howed))
        | raised hi hab1 =>
            obtain ⟨text, htext, -⟩ := hab1.output
            rcases (isSound_step ha.sound).of_error hstep with ⟨cause, hcause⟩ | ⟨what, rfl, -⟩
            · exact absurd hcause (hi cause)
            · exact absurd ha.quiet (not_quiet_of_fault hc ha.running hstep htext)
        | halted hab1 hflushed hflushed' =>
            exact Or.inl (.halted (comes_of_halt ha.running hstep) (comes_of_halt hb.running hstep')
              hab1 hflushed hflushed')
      · exact absurd ha.quiet (not_quiet_of_reported ha.running hreported)
      · exact absurd hb.quiet (not_quiet_of_reported hb.running hreported)

/-- What a word was read and dispatched to, in both runs. -/
lemma dispatched_together (ha : Awaits a p) (hb : Awaits b q)
    (hread : Even c c' (read p) (read q)) :
    EndTogether c c' a b ∨ AwaitTogether c c' p.pending a b := by
  generalize hr : read p = r at hread
  generalize hr' : read q = r' at hread
  cases hread with
  | @ok more p1 q1 h1 =>
      have howed := ((owed_read ha.sound ha.control).of_ok hr).2
      cases hrunning : p1.engine.running with
      | false =>
          have hrunning' : q1.engine.running = false := by rw [← h1.engine, hrunning]
          exact Or.inl (.stopped (ha.stops hr hrunning) (hb.stops hr' hrunning') h1.toLevel)
      | true =>
          have hrunning' : q1.engine.running = true := by rw [← h1.engine, hrunning]
          cases more with
          | true =>
              exact Or.inr ⟨a, b, p1, q1, leads_refl a, leads_refl b, ha.again hr hrunning,
                hb.again hr' hrunning', h1.toLevel, Nat.lt_of_le_of_lt (pending_le_owed p1) howed⟩
          | false =>
              obtain ⟨hleads, hp1⟩ := ha.leaves hr hrunning
              obtain ⟨hleads', hq1⟩ := hb.leaves hr' hrunning'
              rcases runs_together hc hc' hp1 hq1 h1 with hends | hawaits
              · exact Or.inl (hends.leads hleads hleads')
              · exact Or.inr (hawaits.leads hleads hleads' howed)
  | raised hi h1 =>
      obtain ⟨text, htext, -⟩ := h1.output
      rcases (isSound_read ha.sound ha.control).of_error hr with ⟨cause, hcause⟩ | ⟨what, rfl, -⟩
      · exact absurd hcause (hi cause)
      · have hstep := ha.step.trans (prompt_broken ha.going hr)
        exact absurd ha.quiet (not_quiet_of_fault hc ha.running hstep htext)
  | halted h1 hflushed hflushed' =>
      exact Or.inl (.halted (ha.halts hr) (hb.halts hr') h1 hflushed hflushed')

/-- **The next word** is read in both runs, or both end for want of one. -/
lemma reads_together (ha : Awaits a p) (hb : Awaits b q) (hpq : Level c c' p q) :
    EndTogether c c' a b ∨ AwaitTogether c c' p.pending a b := by
  obtain ⟨text, htext, htext'⟩ := hpq.output
  cases hrest : p.input.rest with
  | nil =>
      obtain ⟨cause, m, hm, hengine, hnone, hheard, hflushed⟩ := ha.exists_end hc htext hrest
      obtain ⟨cause', m', hm', hengine', hnone', hheard', hflushed'⟩ :=
        hb.exists_end hc' htext' (hpq.rest.symm.trans hrest)
      exact Or.inl (.halted hm hm' ⟨by rw [hengine, hengine', hpq.engine], by rw [hnone, hnone'],
        text, hheard, hheard'⟩ hflushed hflushed')
  | cons w ws =>
      obtain ⟨a1, p1, p2, hleads, ha1, hpending, hnext, hengine, hbuffer, hws, hheard⟩ :=
        ha.exists_word hc htext hrest
      obtain ⟨b1, q1, q2, hleads', hb1, -, hnext', hengine', hbuffer', hws', hheard'⟩ :=
        hb.exists_word hc' htext' (hpq.rest.symm.trans hrest)
      have h2 : Abreast c c' p2 q2 := ⟨⟨by rw [hengine, hengine', hpq.engine], by rw [hws, hws'],
        text, hheard, hheard'⟩, hbuffer, hbuffer'⟩
      have hread : read p1 = dispatch w p2 := bind_of_ok hnext
      have hread' : read q1 = dispatch w q2 := bind_of_ok hnext'
      have hdispatch := inStepUnless_dispatch hc hc' w p2 q2 h2
      rw [← hread, ← hread'] at hdispatch
      rcases hdispatch with heven | hreported | hreported
      · rcases dispatched_together hc hc' ha1 hb1 heven with hends | hawaits
        · exact Or.inl (hends.leads hleads hleads')
        · exact Or.inr (hawaits.leads hleads hleads' hpending)
      · exact absurd ha1.quiet (not_quiet_of_read ha1.running ha1.going ha1.step hreported)
      · exact absurd hb1.quiet (not_quiet_of_read hb1.running hb1.going hb1.step hreported)

/-- **Both runs end together.**  The induction is on what is left to be read by one of them. -/
lemma ends_together (ha : Awaits a p) (hb : Awaits b q) (hpq : Level c c' p q) :
    EndTogether c c' a b := by
  induction hn : p.pending using Nat.strongRecOn generalizing a b p q with
  | ind n ih =>
      subst hn
      rcases reads_together hc hc' ha hb hpq with
        hends | ⟨a1, b1, p1, q1, hleads, hleads', ha1, hb1, h1, hless⟩
      · exact hends
      · exact (ih _ hless ha1 hb1 h1 rfl).leads hleads hleads'

end Steady

/-! ## Whole runs -/

/-- Given fuel enough, a run of `m₀` ends with `m`. -/
def RunsTo (m₀ m : Machine) : Prop :=
  ∃ enough failure, ∀ fuel ≥ enough, run fuel .background m₀ = (.ended failure, m)

lemma Comes.runsTo_of_stopped {m₀ : Machine} (h : Comes (m₀.indent true) (.ok true a))
    (hc : m₀.console.Steady) (ha : m₀.console.Heard text a.console) :
    ∃ m, RunsTo m₀ m ∧ Delivers m₀.console (a.session text) m := by
  obtain ⟨enough, henough⟩ := h
  obtain ⟨m, hm, hrun⟩ := run_of_stopped m₀ hc ⟨text, ha, rfl⟩
  exact ⟨m, ⟨enough, none, fun fuel hfuel => hrun fuel (henough fuel hfuel)⟩, hm⟩

lemma Comes.runsTo_of_halted {m₀ : Machine} {cause : Option Failure}
    (h : Comes (m₀.indent true) (.error (.halt cause) a)) (ha : m₀.console.Heard text a.console)
    (hflushed : a.console.Flushed) :
    ∃ m, RunsTo m₀ m ∧ Delivers m₀.console (a.session text) m := by
  obtain ⟨enough, henough⟩ := h
  obtain ⟨failure, m, hm, hrun⟩ := run_of_halt m₀ cause ⟨⟨text, ha, rfl⟩, hflushed⟩
  exact ⟨m, ⟨enough, failure, fun fuel hfuel => hrun fuel (henough fuel hfuel)⟩, hm⟩

lemma Fresh.rest (h : m.Fresh) (hstreams : ∀ s ∈ m.input.queue, s.failure = none) :
    m.input.rest = m.input.queue.flatMap Stream.words := by
  rw [← Source.flatten_unreadIn hstreams, Source.rest, Source.buffered, h.buffer, Source.unread,
    h.current]
  rfl

/-- A new machine is about to read its first word. -/
lemma Fresh.awaits (h : m.Fresh) (hlimit : 0 < m.engine.limit) (hquiet : Quiet (m.indent true)) :
    ∃ p, Becomes m { m.engine with pc := 0 } p ∧ Awaits (m.indent true) p := by
  have hruns : Runs (m.indent true) :=
    ⟨⟨h.isSound.engine, h.isSound.input⟩, congrArg Engine.running h.engine, hlimit, hquiet⟩
  obtain ⟨p, hp, hawaits⟩ := hruns.awaits (congrArg Engine.fn h.engine)
    (congrArg Engine.pc h.engine) (congrArg Engine.frames h.engine)
  exact ⟨p, ⟨hp.engine, hp.input, hp.console⟩, hawaits⟩

/-- **Layout does not matter.**  Two new machines have the same limit on their return stacks,
outlets that do not fail, no prompts, and streams that do not fail and have the same words, however
these are divided into lines and streams.  If no diagnostic is reported by either, both run to an
end; and then they have the same data stack, dictionary, mode, open definition and running flag, and
all their outlets have received the same since. -/
theorem run_reflowed {settings settings' : List Setting} {m₀ n₀ : Machine}
    (hm : create settings = .ok m₀) (hn : create settings' = .ok n₀)
    (hlimit : 0 < m₀.engine.limit) (hsame : m₀.engine.limit = n₀.engine.limit)
    (hmsinks : m₀.console.Reliable) (hnsinks : n₀.console.Reliable)
    (hmprompts : m₀.console.prompts = .off) (hnprompts : n₀.console.prompts = .off)
    (hmstreams : ∀ s ∈ m₀.input.queue, s.failure = none)
    (hnstreams : ∀ s ∈ n₀.input.queue, s.failure = none)
    (hwords : m₀.input.queue.flatMap Stream.words = n₀.input.queue.flatMap Stream.words)
    (hmquiet : Quiet (m₀.indent true)) (hnquiet : Quiet (n₀.indent true)) :
    ∃ m n out, RunsTo m₀ m ∧ RunsTo n₀ n ∧
      m₀.console.Received out m.console ∧ n₀.console.Received out n.console ∧
      m.engine.stack = n.engine.stack ∧ m.engine.dict = n.engine.dict ∧
      m.engine.mode = n.engine.mode ∧ m.engine.defining = n.engine.defining ∧
      m.engine.running = n.engine.running := by
  have hmsteady := steady_create hm hmsinks hmprompts
  have hnsteady := steady_create hn hnsinks hnprompts
  have hmfresh := fresh_create hm
  have hnfresh := fresh_create hn
  have hengine : m₀.engine = n₀.engine := by rw [hmfresh.engine, hnfresh.engine, hsame]
  obtain ⟨p, hp, hmp⟩ := hmfresh.awaits hlimit hmquiet
  obtain ⟨q, hq, hnq⟩ := hnfresh.awaits (by rw [← hsame]; exact hlimit) hnquiet
  have hlevel : Level m₀.console n₀.console m₀ n₀ :=
    ⟨hengine, by rw [hmfresh.rest hmstreams, hnfresh.rest hnstreams, hwords], [],
      hmsteady.heard, hnsteady.heard⟩
  rw [hengine] at hp
  -- both runs end, and whichever way they do, they show the same
  have hruns : ∃ (a b m n : Machine) (text : Text),
      a.engine = b.engine ∧ RunsTo m₀ m ∧ RunsTo n₀ n ∧
      Delivers m₀.console (a.session text) m ∧ Delivers n₀.console (b.session text) n := by
    cases ends_together hmsteady hnsteady hmp hnq (hlevel.becomes hp hq) with
    | @stopped a b ha hb hab =>
        obtain ⟨text, htext, htext'⟩ := hab.output
        obtain ⟨m, hrun, hdelivers⟩ := ha.runsTo_of_stopped hmsteady htext
        obtain ⟨n, hrun', hdelivers'⟩ := hb.runsTo_of_stopped hnsteady htext'
        exact ⟨a, b, m, n, text, hab.engine, hrun, hrun', hdelivers, hdelivers'⟩
    | @halted _ _ a b ha hb hab hflushed hflushed' =>
        obtain ⟨text, htext, htext'⟩ := hab.output
        obtain ⟨m, hrun, hdelivers⟩ := ha.runsTo_of_halted htext hflushed
        obtain ⟨n, hrun', hdelivers'⟩ := hb.runsTo_of_halted htext' hflushed'
        exact ⟨a, b, m, n, text, hab.engine, hrun, hrun', hdelivers, hdelivers'⟩
  obtain ⟨a, b, m, n, text, hab, hrun, hrun', ⟨hshown, hflushed⟩, ⟨hshown', hflushed'⟩⟩ := hruns
  refine ⟨m, n, text, hrun, hrun', hshown.heard.received hflushed, hshown'.heard.received hflushed',
    ?_⟩
  obtain ⟨_, -, hs⟩ := hshown
  obtain ⟨_, -, hs'⟩ := hshown'
  simp only [session, Session.mk.injEq, hab] at hs hs'
  obtain ⟨-, -, hdict, hstack, hmode, hdefining, hrunning, -⟩ := hs
  obtain ⟨-, -, hdict', hstack', hmode', hdefining', hrunning', -⟩ := hs'
  exact ⟨hstack.symm.trans hstack', hdict.symm.trans hdict', hmode.symm.trans hmode',
    hdefining.symm.trans hdefining', hrunning.symm.trans hrunning'⟩

/-- The same words on one line, and on several lines of two streams. -/
theorem run_reflowed_of_streams :
    ∃ m₀ n₀ m n out,
      create [.written [] (.ok (utf8 "2 dup * .\n")), .output (.memory []), .prompts .off, .limit 3]
        = .ok m₀ ∧
      create [.written [] (.ok (utf8 "2 dup\n\n")), .written [] (.ok (utf8 "\t*  .")),
        .output (.memory []), .prompts .off, .limit 3] = .ok n₀ ∧
      Quiet (m₀.indent true) ∧ Quiet (n₀.indent true) ∧ RunsTo m₀ m ∧ RunsTo n₀ n ∧
      m₀.console.Received out m.console ∧ n₀.console.Received out n.console ∧
      m.engine.stack = n.engine.stack := by
  obtain ⟨m₀, hm⟩ : ∃ m₀, create [.written [] (.ok (utf8 "2 dup * .\n")), .output (.memory []),
      .prompts .off, .limit 3] = .ok m₀ := ⟨_, rfl⟩
  obtain ⟨n₀, hn⟩ : ∃ n₀, create [.written [] (.ok (utf8 "2 dup\n\n")),
      .written [] (.ok (utf8 "\t*  .")), .output (.memory []), .prompts .off, .limit 3] = .ok n₀ :=
    ⟨_, rfl⟩
  obtain ⟨hlimit, hsame, hmprompts, hnprompts, hwords⟩ : 0 < m₀.engine.limit ∧
      m₀.engine.limit = n₀.engine.limit ∧ m₀.console.prompts = .off ∧ n₀.console.prompts = .off ∧
      m₀.input.queue.flatMap Stream.words = n₀.input.queue.flatMap Stream.words := by
    cases hm
    cases hn
    exact ⟨by decide, rfl, rfl, rfl, rfl⟩
  have hmsinks : m₀.console.Reliable := by
    cases hm
    exact Console.reliable_of_memory rfl rfl
  have hnsinks : n₀.console.Reliable := by
    cases hn
    exact Console.reliable_of_memory rfl rfl
  have hmstreams : ∀ s ∈ m₀.input.queue, s.failure = none := by
    cases hm
    exact List.forall_mem_cons.mpr ⟨rfl, nofun⟩
  have hnstreams : ∀ s ∈ n₀.input.queue, s.failure = none := by
    cases hn
    exact List.forall_mem_cons.mpr ⟨rfl, List.forall_mem_cons.mpr ⟨rfl, nofun⟩⟩
  have hmquiet : Quiet (m₀.indent true) := by
    cases hm
    refine quiet_of_step rfl rfl ((prompt_again rfl rfl).trans ((prompt_again rfl rfl).trans
      ((prompt_again rfl rfl).trans ((prompt_again rfl rfl).trans (prompt_ended rfl rfl))))) ?_
    refine quiet_of_step rfl rfl rfl ?_
    exact quiet_of_halt rfl rfl (prompt_broken rfl rfl)
  have hnquiet : Quiet (n₀.indent true) := by
    cases hn
    refine quiet_of_step rfl rfl ((prompt_again rfl rfl).trans ((prompt_again rfl rfl).trans
      (prompt_ended rfl rfl))) (quiet_of_step rfl rfl rfl ?_)
    refine quiet_of_step rfl rfl (prompt_ended rfl rfl) (quiet_of_step rfl rfl rfl ?_)
    refine quiet_of_step rfl rfl ((prompt_again rfl rfl).trans ((prompt_again rfl rfl).trans
      (prompt_ended rfl rfl))) (quiet_of_step rfl rfl rfl ?_)
    exact quiet_of_halt rfl rfl (prompt_broken rfl rfl)
  obtain ⟨m, n, out, hrun, hrun', hout, hout', hstack, -⟩ := run_reflowed hm hn hlimit hsame hmsinks
    hnsinks hmprompts hnprompts hmstreams hnstreams hwords hmquiet hnquiet
  exact ⟨m₀, n₀, m, n, out, hm, hn, hmquiet, hnquiet, hrun, hrun', hout, hout', hstack⟩

end Machine

end ColonMachine
