import ColonMachine.Proofs.Boundaries
import ColonMachine.Proofs.Onward

/-!
# When prompts are lost

Whether prompts are shown is a setting of the source, and no instruction is meant to change it.  The
read instruction turns prompts off, reads a word, and turns them on again; a fault is held back
until it has done so.  Anything else that breaks the reading off, such as the end of the input, is
not held back, and then the prompts stay off.

* `LosesPrompts` says that this is about to happen.  It is the only way in which an instruction
  changes the setting (`prompts_step`), and so the only way in which a run does (`prompts_exec`,
  `prompts_run`).
* As long as prompts are on, a line of the last stream is read as it is without them once the prompt
  has been shown (`prompted_of_atLast`).

The setting is not made good later, so that such a session stays without prompts.
-/

namespace ColonMachine

/-- Something other than a fault broke the action off. -/
def Result.Aborted {α : Type} : Result α → Prop
  | .ok _ _ => False
  | .error i _ => ∀ what, i ≠ .fault what

namespace Machine

variable {m m1 m' : Machine} {op : Opcode} {context context' : Context} {fuel : ℕ}

/-! ## One instruction -/

/-- The instruction that comes next, if there is one. -/
def nextOpcode? (m : Machine) : Option Opcode :=
  ((m.engine.dict.get? m.engine.fn).bind (codeAt? · (m.engine.pc + 1))).bind Opcode.ofCode?

/-- The next instruction reads a word, and is broken off by something other than a fault. -/
def LosesPrompts (m : Machine) : Prop := m.nextOpcode? = some .read ∧ Result.Aborted (step m)

lemma Becomes.prompts {e : Engine} (h : Becomes m e m') : m'.prompts = m.prompts :=
  congrArg Source.prompting h.input

lemma prompts_readQuietly (m : Machine) :
    prompts (Result.machine (readQuietly m)) = true ↔ m.prompts = true ∧
      ¬ Result.Aborted (readQuietly m) := by
  rcases hread : read (m.prompted false) with ⟨more, m1⟩ | ⟨i, m1⟩
  · rw [readQuietly_of_ok hread]
    simp [Result.machine, Result.Aborted, Machine.prompts, prompted]
  · by_cases hi : ∃ what, i = .fault what
    · obtain ⟨what, rfl⟩ := hi
      rw [readQuietly_of_fault hread]
      simp [Result.machine, Result.Aborted, Machine.prompts, prompted]
    · have hi' : ∀ what, i ≠ .fault what := fun what hwhat => hi ⟨what, hwhat⟩
      have hoff : m1.prompts = false := ((restrained_read _).of_error hread).1
      rw [readQuietly_of_broken hread hi']
      simp [Result.machine, Result.Aborted, hoff, hi']

lemma prompts_fetch (m : Machine) : prompts (Result.machine (fetch m)) = m.prompts := by
  cases hbyte : (m.engine.dict.get? m.engine.fn).bind (codeAt? · (m.engine.pc + 1)) with
  | none => rw [fetch_of_none hbyte]; rfl
  | some byte => rw [fetch_of_byte hbyte]; rfl

lemma restrained_operate {arg : Code} (hop : op.hasOperand = true) :
    Restrained prompts (operate op arg) := by
  cases op with
  | call => exact restrained_call _
  | jump => exact fun _ => rfl
  | push => exact fun _ => rfl
  | prompt => cases hop
  | read => cases hop
  | ret => cases hop

/-- All instructions but one leave the setting alone. -/
lemma prompts_execute (hop : op ≠ .read) : prompts (Result.machine (execute op m)) = m.prompts := by
  by_cases hoperand : op.hasOperand = true
  · have hfetched := prompts_fetch m
    rw [execute_of_operand hoperand]
    rcases hfetch : fetch m with ⟨arg, m1⟩ | ⟨i, m1⟩
    · rw [hfetch] at hfetched
      rw [bind_of_ok hfetch]
      exact ((restrained_operate hoperand).machine m1).trans hfetched
    · rw [hfetch] at hfetched
      rw [bind_of_error hfetch]
      exact hfetched
  · cases op with
    | prompt => exact restrained_prompt.machine m
    | ret => exact restrained_ret.machine m
    | read => exact absurd rfl hop
    | call => exact absurd rfl hoperand
    | jump => exact absurd rfl hoperand
    | push => exact absurd rfl hoperand

/-- **The step lemma.**  After an instruction prompts are shown if they were before, unless it was a
reading of a word that was broken off. -/
lemma prompts_step (m : Machine) :
    prompts (Result.machine (step m)) = true ↔ m.prompts = true ∧ ¬ m.LosesPrompts := by
  have hkept (hstep : prompts (Result.machine (step m)) = m.prompts)
      (hop : m.nextOpcode? ≠ some .read) :
      prompts (Result.machine (step m)) = true ↔ m.prompts = true ∧ ¬ m.LosesPrompts := by
    rw [hstep]
    exact ⟨fun h => ⟨h, fun hlost => hop hlost.1⟩, And.left⟩
  cases hbyte : (m.engine.dict.get? m.engine.fn).bind (codeAt? · (m.engine.pc + 1)) with
  | none =>
      refine hkept ?_ (by simp [nextOpcode?, hbyte])
      rw [step, bind_of_error (fetch_of_none hbyte)]
      rfl
  | some byte =>
      cases hop : Opcode.ofCode? byte with
      | none =>
          obtain ⟨m1, hm1, hstep⟩ := step_of_unknown hbyte hop
          refine hkept ?_ (by simp [nextOpcode?, hbyte, hop])
          rw [hstep]
          exact hm1.prompts
      | some op =>
          have hnext : m.nextOpcode? = some op := by rw [nextOpcode?, hbyte, Option.bind_some, hop]
          rw [Opcode.code_of_ofCode? hop] at hbyte
          obtain ⟨m1, hm1, hstep⟩ := step_of_opcode hbyte
          by_cases hread : op = .read
          · subst hread
            rw [LosesPrompts, hstep, execute, ← hm1.prompts]
            simpa [hnext] using prompts_readQuietly m1
          · refine hkept ?_ (by simp [hnext, hread])
            rw [hstep]
            exact (prompts_execute hread).trans hm1.prompts

/-! ## A run -/

lemma restrained_recover (what : Fault) : Restrained prompts (recover what) := by
  refine (restrained_note _ _).standing.prompts.bind fun _ => ?_
  exact (restrained_report _).standing.prompts.bind fun _ => restrained_engine _

/-- What follows an instruction: a fault of it is handled, and the context is asked. -/
lemma prompts_tick (context : Context) (m : Machine) :
    (prompts (Result.machine (tick context m)) = true ↔ m.prompts = true ∧ ¬ m.LosesPrompts) ∧
      ∀ context' m', tick context m = .ok context' m' → ¬ m.LosesPrompts := by
  have hstep := prompts_step m
  have hask : Restrained prompts (haltIf context.ask.1 >>= fun _ => pure context.ask.2) :=
    (restrained_haltIf _).standing.prompts.bind fun _ => restrained_pure _
  -- nothing that follows an instruction touches the setting
  have hdone {outcome : Except Fault Unit} {m1 : Machine}
    (hattempt : attempt step m = .ok outcome m1)
      (hmachine : Result.machine (step m) = m1) (hend : ¬ Result.Aborted (step m)) :
      (prompts (Result.machine (tick context m)) = true ↔ m.prompts = true ∧ ¬ m.LosesPrompts) ∧
        ∀ context' m', tick context m = .ok context' m' → ¬ m.LosesPrompts := by
    refine ⟨?_, fun _ _ _ hlost => hend hlost.2⟩
    rw [← hstep, hmachine, tick, bind_of_ok hattempt]
    cases outcome with
    | ok _ => rw [hask.machine m1]
    | error what => rw [((restrained_recover what).bind fun _ => hask).machine m1]
  rcases hresult : step m with ⟨_, m1⟩ | ⟨what | cause | payload | _, m1⟩
  · exact hdone (by rw [attempt, hresult]) (by rw [hresult]; rfl)
      (by simp [hresult, Result.Aborted])
  · exact hdone (by rw [attempt, hresult]) (by rw [hresult]; rfl)
      (by simp [hresult, Result.Aborted])
  all_goals
    have hbroken : tick context m = .error _ m1 := bind_of_error (by rw [attempt, hresult])
    rw [hbroken]
    rw [hresult] at hstep
    exact ⟨hstep, by simp⟩

/-- Within the given number of instructions, a word is read and the reading broken off. -/
def LosesWithin (fuel : ℕ) (context : Context) (m : Machine) : Prop :=
  ∃ n < fuel, ∃ stopped a, exec n context m = .ok stopped a ∧ a.engine.running = true ∧
    a.LosesPrompts

lemma not_losesWithin_of_stopped (h : m.engine.running = false) : ¬ LosesWithin fuel context m := by
  rintro ⟨n, -, stopped, a, hexec, hrunning, -⟩
  rw [exec_stopped h] at hexec
  cases hexec
  rw [h] at hrunning
  cases hrunning

/-- It happens in the first instruction, or after it. -/
lemma losesWithin_succ (h : m.engine.running = true) : LosesWithin (fuel + 1) context m ↔
    m.LosesPrompts ∨ ∃ context' m1, tick context m = .ok context' m1 ∧
    LosesWithin fuel context' m1 := by
  constructor
  · rintro ⟨_ | n, hn, stopped, a, hexec, hrunning, hlost⟩
    · cases hexec
      exact Or.inl hlost
    · rcases htick : tick context m with ⟨context', m1⟩ | ⟨i, m1⟩
      · rw [exec_tick h htick] at hexec
        exact Or.inr ⟨context', m1, rfl, n, by omega, stopped, a, hexec, hrunning, hlost⟩
      · rw [exec_broken h htick] at hexec
        cases hexec
  · rintro (hlost | ⟨context', m1, htick, n, hn, stopped, a, hexec, hrunning, hlost⟩)
    · exact ⟨0, by omega, _, m, rfl, h, hlost⟩
    · exact ⟨n + 1, by omega, stopped, a, by rw [exec_tick h htick, hexec], hrunning, hlost⟩

/-- **The run lemma.**  The induction is over the instructions. -/
lemma prompts_exec (fuel : ℕ) (context : Context) (m : Machine) :
    prompts (Result.machine (exec fuel context m)) = true ↔ m.prompts = true ∧
      ¬ LosesWithin fuel context m := by
  induction fuel generalizing context m with
  | zero => exact ⟨fun h => ⟨h, by simp [LosesWithin]⟩, And.left⟩
  | succ fuel ih =>
      cases hrunning : m.engine.running with
      | false =>
          rw [exec_stopped hrunning]
          exact ⟨fun h => ⟨h, not_losesWithin_of_stopped hrunning⟩, And.left⟩
      | true =>
          obtain ⟨htick, hok⟩ := prompts_tick context m
          rw [losesWithin_succ hrunning]
          rcases hresult : tick context m with ⟨context', m1⟩ | ⟨i, m1⟩
          · have hkept : ¬ m.LosesPrompts := hok context' m1 hresult
            have hm1 : m1.prompts = true ↔ m.prompts = true := by
              rw [hresult] at htick
              exact htick.trans (and_iff_left hkept)
            rw [exec_tick hrunning hresult, ih, hm1]
            simp [hkept]
          · rw [exec_broken hrunning hresult]
            rw [hresult] at htick
            refine htick.trans ?_
            simp

/-- A run that goes on has lost nothing. -/
lemma not_losesWithin_of_ok {stopped : Bool} (h : exec fuel context m = .ok stopped m') :
    ¬ LosesWithin fuel context m := by
  induction fuel generalizing context m with
  | zero => simp [LosesWithin]
  | succ fuel ih =>
      cases hrunning : m.engine.running with
      | false => exact not_losesWithin_of_stopped hrunning
      | true =>
          rw [losesWithin_succ hrunning]
          rcases htick : tick context m with ⟨context', m1⟩ | ⟨i, m1⟩
          · rw [exec_tick hrunning htick] at h
            rintro (hlost | ⟨context'', m2, hok, hlost⟩)
            · exact (prompts_tick context m).2 context' m1 htick hlost
            · cases hok
              exact ih h hlost
          · rw [exec_broken hrunning htick] at h
            cases h

lemma Reaches.prompts (h : m.Reaches m') : m'.prompts = true ↔ m.prompts = true := by
  obtain ⟨fuel, context, stopped, hexec⟩ := h
  have hprompts := prompts_exec fuel context (m.indent true)
  rw [hexec] at hprompts
  exact hprompts.trans (and_iff_left (not_losesWithin_of_ok hexec))

/-- **What a whole run comes to.** -/
lemma prompts_run (fuel : ℕ) (context : Context) (m : Machine) :
    (run fuel context m).2.prompts = true ↔ m.prompts = true ∧
      ¬ LosesWithin fuel context (m.indent true) := by
  have hrun :
      (run fuel context m).2.prompts
        = prompts (Result.machine (exec fuel context (m.indent true))) :=
    congrArg Prod.snd (still_run fuel context m)
  rw [hrun]
  exact prompts_exec fuel context (m.indent true)

end Machine

/-! ## Lines of the last stream -/

namespace Source

variable {α ε : Type} {src : Source} {mode : Mode} {c c1 : Console} {failure : Failure}

/-- The next line, if there is one, is of the last stream. -/
def AtLast (src : Source) : Prop :=
  (src.current.isSome ∧ src.queue = []) ∨ src.current = none ∧ ∃ stream, src.queue = [stream]

/-- The source with prompts turned on or off. -/
def prompted (src : Source) (on : Bool) : Source := { src with prompting := on }

/-- What is read without prompts, with prompts turned on again. -/
def unmuted (r : α × Source × ε) : α × Source × ε := (r.1, r.2.1.prompted true, r.2.2)

/-- A line is read after its prompt as it is without prompts. -/
lemma readOn_prompted (stream : Stream) (hprompting : src.prompting = true)
    (hqueue : src.queue = []) (hshow : c.showPrompt mode = (none, c1)) :
    src.readOn (Console.hooks mode) stream c =
      unmuted ((src.prompted false).readOn (Console.hooks mode) stream c1) := by
  have hannounce :
      src.announce (Console.hooks mode) c = (src.prompted false).announce (Console.hooks mode)
        c1 := by
    simp only [announce, hprompting, hqueue, prompted, Console.hooks, List.isEmpty_nil,
      Bool.and_self, if_true, hshow, Bool.false_and, Bool.false_eq_true, if_false]
  rw [readOn, readOn, attempt, attempt, hannounce]
  obtain ⟨queue, current, last, text, buffer, prompting⟩ := src
  obtain rfl : prompting = true := hprompting
  obtain rfl : queue = [] := hqueue
  rcases announce (Console.hooks mode) _ c1 with ⟨_ | failure, c2⟩
  · cases stream.lines with
    | cons line rest => rfl
    | nil =>
        cases stream.failure with
        | none => rfl
        | some failure => rfl
  · rfl

/-- If its prompt cannot be shown, no line is read. -/
lemma readOn_of_showPrompt (stream : Stream) (hprompting : src.prompting = true)
    (hqueue : src.queue = []) (hshow : c.showPrompt mode = (some failure, c1)) :
    src.readOn (Console.hooks mode) stream c = (some failure, src, c1) := by
  have hannounce : src.announce (Console.hooks mode) c = (some failure, c1) := by
    simp only [announce, hprompting, hqueue, Console.hooks, List.isEmpty_nil, Bool.and_self,
      if_true, hshow]
  rw [readOn, attempt, hannounce]

/-- Reading a line of the last stream is reading on from it. -/
lemma AtLast.exists_readOn (h : src.AtLast) (hprompting : src.prompting = true) (mode : Mode) :
    ∃ (src1 : Source) (stream : Stream), src1.prompting = true ∧ src1.queue = [] ∧
      (∀ c, src.readLine (Console.hooks mode) c = src1.readOn (Console.hooks mode) stream c) ∧
      ∀ c, (src.prompted false).readLine (Console.hooks mode) c =
        (src1.prompted false).readOn (Console.hooks mode) stream c := by
  rcases h with ⟨hcurrent, hqueue⟩ | ⟨hcurrent, stream, hqueue⟩
  · obtain ⟨stream, hstream⟩ := Option.isSome_iff_exists.mp hcurrent
    exact ⟨src, stream, hprompting, hqueue, fun c => readLine_of_some hstream,
      fun c => readLine_of_some hstream⟩
  · refine ⟨src.begun stream [], stream, hprompting, rfl, fun c => ?_, fun c => ?_⟩
    · rw [readLine_of_none hcurrent, hqueue]
      rfl
    · have hcurrent' : (src.prompted false).current = none := hcurrent
      have hqueue' : (src.prompted false).queue = [stream] := hqueue
      rw [readLine_of_none hcurrent', hqueue']
      rfl

/-- **A line of the last stream is prompted for**, and then read as it is without prompts. -/
lemma AtLast.nextWord (h : src.AtLast) (hprompting : src.prompting = true)
    (hbuffer : src.buffer = none) (mode : Mode) (c : Console) :
    match c.showPrompt mode with
    | (none, c1) => src.nextWord (Console.hooks mode) c =
        unmuted ((src.prompted false).nextWord (Console.hooks mode) c1)
    | (some failure, c1) =>
        ∃ src1, src.nextWord (Console.hooks mode) c = (.error failure, src1, c1) := by
  obtain ⟨src1, stream, hprompting1, hqueue1, hread, hquiet⟩ := h.exists_readOn hprompting mode
  have hempty : src.isEmpty = true := by rw [isEmpty, hbuffer]; rfl
  have hempty' : (src.prompted false).isEmpty = true := hempty
  rcases hshow : c.showPrompt mode with ⟨_ | failure, c1⟩
  · dsimp only
    rw [Source.nextWord, Source.nextWord, if_pos hempty, if_pos hempty', hread, hquiet,
      readOn_prompted stream hprompting1 hqueue1 hshow]
    rcases (src1.prompted false).readOn (Console.hooks mode) stream c1 with ⟨_ | failure, src2, c2⟩
    · simp only [unmuted, popWord, prompted]
      split <;> rfl
    · rfl
  · dsimp only
    rw [Source.nextWord, if_pos hempty, hread,
      readOn_of_showPrompt stream hprompting1 hqueue1 hshow]
    exact ⟨src1, rfl⟩

end Source

namespace Machine

variable {α : Type} {m : Machine}

/-- What came of an action, with prompts turned on or off. -/
def turned (on : Bool) : Result α → Result α
  | .ok a m => .ok a (m.prompted on)
  | .error i m => .error i (m.prompted on)

/-- Does something with prompts turned off, and turns them on again however it ends. -/
def quietly (act : Act α) : Act α := fun m => turned m.prompts (act (m.prompted false))

lemma noted_prompted (mark : Text) (message : Machine → Text) (on : Bool)
    (hmessage : message (m.prompted on) = message m) :
    noted mark message (m.prompted on) = (noted mark message m).prompted on := by
  by_cases henabled : m.trace.enabled = true
  · have henabled' : (m.prompted on).trace.enabled = true := henabled
    rw [noted, noted, if_pos henabled, if_pos henabled', hmessage]
    rfl
  · have henabled' : ¬ (m.prompted on).trace.enabled = true := henabled
    rw [noted, noted, if_neg henabled, if_neg henabled']

/-- What becomes of a word does not depend on whether prompts are shown. -/
lemma accept_prompted (r : Except Failure (Option Text)) (m : Machine) (on : Bool) :
    accept r (m.prompted on) = turned on (accept r m) := by
  rcases r with failure | _ | word
  · have hnoted := noted_prompted (m := { m with console := m.console.flush.2 }) (utf8 "#")
      (fun _ => utf8 "halt: " ++ failure.wording) on rfl
    exact congrArg (EStateM.Result.error (Interrupt.halt (some failure))) hnoted
  · rfl
  · have hnoted := noted_prompted (m := m) (utf8 ">")
      (fun m => word.quote ++ utf8 " from " ++ m.input.last.text) on rfl
    exact congrArg (EStateM.Result.ok (some word)) hnoted

/-- What asking for a word comes to, if a line of the last stream has to be read for it: the prompt
is shown and the line read as without prompts, or the prompt cannot be shown and the session is
halted. -/
def Prompted (m : Machine) : Prop :=
  match m.console.showPrompt m.engine.mode with
  | (none, c) => nextWord m = quietly nextWord { m with console := c }
  | (some failure, _) => ∃ m', nextWord m = .error (.halt (some failure)) m'

lemma prompted_of_atLast (h : m.input.AtLast) (hprompts : m.prompts = true)
    (hbuffer : m.input.buffer = none) :
    m.Prompted := by
  have hnext := h.nextWord hprompts hbuffer m.engine.mode m.console
  rw [Prompted]
  generalize m.console.showPrompt m.engine.mode = shown at hnext ⊢
  obtain ⟨_ | failure, c⟩ := shown
  · have hprompts' : prompts { m with console := c } = true := hprompts
    dsimp only at hnext ⊢
    rw [nextWord_eq, hnext, quietly, hprompts', nextWord_eq]
    let quiet := (m.input.prompted false).nextWord (Console.hooks m.engine.mode) c
    exact accept_prompted quiet.1 { m with input := quiet.2.1, console := quiet.2.2 } true
  · obtain ⟨src, hnext⟩ := hnext
    dsimp only
    rw [nextWord_eq, hnext]
    exact ⟨_, rfl⟩

/-- **Prompts are lost where the reading of a word is broken off, and nowhere else.**  After an
instruction, and after a run, prompts are shown just if they were before and no read instruction was
broken off by anything but a fault.  If none was, then in a run with more input every line of the
last stream is prompted for. -/
theorem prompts_lost_only_by_read (m : Machine) (fuel : ℕ) (context : Context) :
    (prompts (Result.machine (step m)) = true ↔ m.prompts = true ∧ ¬ m.LosesPrompts) ∧
      ((run fuel context m).2.prompts = true ↔
        m.prompts = true ∧ ¬ LosesWithin fuel context (m.indent true)) ∧
      (m.prompts = true → ¬ LosesWithin fuel context (m.indent true) →
        ∀ stream b, ((run fuel context m).2.feed stream).Reaches b → b.prompts = true ∧
          (b.input.buffer = none → b.input.AtLast → b.Prompted)) := by
  refine ⟨prompts_step m, prompts_run fuel context m, fun hprompts hkept stream b hreaches => ?_⟩
  have hrun : ((run fuel context m).2.feed stream).prompts = true :=
    (prompts_run fuel context m).mpr ⟨hprompts, hkept⟩
  have hb : b.prompts = true := hreaches.prompts.mpr hrun
  exact ⟨hb, fun hbuffer hlast => prompted_of_atLast hlast hb hbuffer⟩

/-- A word is to be read and there is no input.  The session is halted, the prompts stay off, and a
line that is queued later is read without one. -/
theorem prompts_lost_by_read : ∃ m₀, create [.prompts ⟨utf8 "P> ", utf8 "C> "⟩] = .ok m₀ ∧
    let m : Machine := { m₀ with engine := { m₀.engine with
      dict :=
        (m₀.engine.dict.add (utf8 "rd")).emit 16 [Opcode.read.code, Opcode.ret.code], fn := 16 } }
    m.prompts = true ∧ ∃ m1, step m = .error (.halt (some .endOfInput)) m1 ∧ m1.prompts = false ∧
      ∃ m2, nextWord (m1.feed (.ofText (utf8 "more") (utf8 "7 .\n"))) = .ok (some (utf8 "7")) m2 ∧
        m2.console.offered = [] :=
  ⟨_, rfl, rfl, _, rfl, rfl, _, rfl, rfl⟩

end Machine

end ColonMachine
