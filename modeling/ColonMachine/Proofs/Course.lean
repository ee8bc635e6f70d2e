import ColonMachine.Proofs.Events

/-!
# The course of a session

A session goes instruction by instruction, and after each one the context is asked whether to go on.
`Course` is such a session with all its events, up to where it stands.

A session that ends does so at its first fatal event: in the middle of an instruction, which is then
broken off, at a question to the context, or with the last flush after the machine has stopped.  In
all three cases nothing follows but the flush of a halt, and the failure of that flush is not asked
for (`course_exec`, by an induction over the instructions; `course_run`).
-/

namespace ColonMachine

namespace Context

variable {context : Context} {cause : Failure}

lemma endingAt_of_asked (h : context.ask.1 = some cause) : ∃ n, context = .endingAt n cause := by
  cases context with
  | background => cases h
  | endingAt n cause' =>
      rw [ask] at h
      split_ifs at h
      cases h
      exact ⟨n, rfl⟩

/-- The next question is put to the same context. -/
lemma endingAt_of_next {n : ℕ} (h : context.ask.2 = .endingAt n cause) :
    ∃ n, context = .endingAt n cause := by
  cases context with
  | background => cases h
  | endingAt n cause' =>
      rw [ask] at h
      split_ifs at h <;> cases h <;> exact ⟨_, rfl⟩

end Context

namespace Machine

/-- Executes one instruction and handles its fault. -/
def instruct : Act Unit := do
  match ← attempt step with
  | .ok () => pure ()
  | .error what => recover what

/-- A session from `m` on, which has come to `m'`. -/
inductive Course : Context → Machine → List Moment → Machine → Prop where
  /-- An instruction is executed, and then the context is asked. -/
  | instruction {context : Context} {m m1 m' : Machine} {moments later : List Moment}
      (hrunning : m.engine.running = true) (hdone : instruct m = .ok () m1)
      (hstory : Story m moments m1) (hinside : ∀ x ∈ moments, x.event.Inside)
      (rest : Course context.ask.2 m1 later m') :
      Course context m (moments ++ ⟨.asked context.ask.1, m1⟩ :: later) m'
  /-- An instruction is broken off. -/
  | broken {context : Context} {m m1 m' : Machine} {moments : List Moment} {i : Interrupt}
      (hrunning : m.engine.running = true) (hbroken : instruct m = .error i m1)
      (hstory : Story m moments m1) (hinside : ∀ x ∈ moments, x.event.Inside)
      (hsilent : Silent m1 m') (hengine : m'.engine = m1.engine) :
      Course context m moments m'
  /-- No instruction is executed any more. -/
  | closing {context : Context} {m m' : Machine} {moments : List Moment}
      (hstory : Story m moments m') (hlast : ∀ x ∈ moments, x.event.IsLast)
      (hengine : m'.engine = m.engine) :
      Course context m moments m'

variable {m m' m1 : Machine} {moments later : List Moment} {context : Context} {failure : Failure}

lemma Course.story (h : Course context m moments m') : Story m moments m' := by
  induction h with
  | instruction _ _ hstory _ _ ih => exact hstory.append (.event (.asked _) ih)
  | broken _ _ hstory _ hsilent _ =>
      simpa using hstory.append (.silently hsilent (.done _))
  | closing hstory _ _ => exact hstory

lemma composed_instruct : Composed instruct := by
  refine .bind (.attempt composed_step) fun outcome => ?_
  cases outcome with
  | ok _ => exact .pure ()
  | error what => exact composed_recover what

lemma tick_eq (context : Context) (m : Machine) :
    tick context m
      = (instruct >>= fun _ => haltIf context.ask.1 >>= fun _ => pure context.ask.2) m := by
  rw [tick, instruct, bind_apply, bind_apply, bind_apply]
  rcases attempt step m with ⟨_ | what, m1⟩ | ⟨i, m1⟩ <;> rfl

/-! ## Instructions -/

/-- After instructions without a fatal event the session stands at `m'`. -/
def Underway (context : Context) (m m' : Machine) : Prop :=
  ∃ moments, Calm moments ∧ ∀ later m'', Story m' later m'' → (∀ x ∈ later, x.event.IsLast) →
    m''.engine = m'.engine → Course context m (moments ++ later) m''

/-- The session has come to `m'`, and ended for the failure of its first fatal event. -/
def Ended (context : Context) (m : Machine) (failure : Failure) (m' : Machine) : Prop :=
  ∃ moments x, EndsAt moments x ∧ x.event.cause? = some failure ∧ m'.engine = x.machine.engine ∧
    m'.input = x.machine.input ∧
    ∀ m'', Silent m' m'' → m''.engine = m'.engine → Course context m moments m''

lemma underway_refl (context : Context) (m : Machine) : Underway context m m :=
  ⟨[], calm_nil, fun _ _ hstory hlast hengine => .closing hstory hlast hengine⟩

lemma calm_asked (hcalm : Calm moments) (hask : context.ask.1 = none) (m : Machine) :
    Calm (moments ++ [⟨.asked context.ask.1, m⟩]) :=
  calm_append.mpr ⟨hcalm, calm_single hask id⟩

section Instruction

variable (hrunning : m.engine.running = true) (hdone : instruct m = .ok () m1)
  (hstory : Story m moments m1) (hinside : ∀ x ∈ moments, x.event.Inside) (hcalm : Calm moments)
include hrunning hdone hstory hinside hcalm

lemma Underway.instruction (h : Underway context.ask.2 m1 m') (hask : context.ask.1 = none) :
    Underway context m m' := by
  obtain ⟨later, hlater, hrest⟩ := h
  refine ⟨moments ++ [⟨.asked context.ask.1, m1⟩] ++ later,
    calm_append.mpr ⟨calm_asked hcalm hask m1, hlater⟩, ?_⟩
  intro last m'' hstory' hlast hengine
  simpa using Course.instruction hrunning hdone hstory hinside
    (hrest last m'' hstory' hlast hengine)

lemma Ended.instruction (h : Ended context.ask.2 m1 failure m') (hask : context.ask.1 = none) :
    Ended context m failure m' := by
  obtain ⟨later, x, hends, hcause, hengine, hinput, hrest⟩ := h
  refine ⟨moments ++ [⟨.asked context.ask.1, m1⟩] ++ later, x,
    hends.prepend (calm_asked hcalm hask m1), hcause, hengine, hinput, ?_⟩
  intro m'' hsilent hengine'
  simpa using Course.instruction hrunning hdone hstory hinside (hrest m'' hsilent hengine')

/-- The context is done: the session is halted. -/
lemma ended_of_asked (hask : context.ask.1 = some failure) :
    ∃ m', (halt (some failure) : Act Unit) m1 = .error (.halt (some failure)) m' ∧
      Ended context m failure m' := by
  obtain ⟨late?, m2, m', hhalt, hstory', hengine, hinput⟩ := halt_some (α := Unit) failure m1
  have hfatal : (Event.asked context.ask.1).Fatal := Event.fatal_of_cause hask
  refine ⟨m', hhalt, moments ++ [⟨.asked context.ask.1, m1⟩] ++ [⟨.halted late?, m2⟩],
    ⟨.asked context.ask.1, m1⟩, ((endsAt_single hfatal).prepend hcalm).halted late? m2, hask,
    hengine, hinput, ?_⟩
  intro m'' hsilent hengine'
  have hover := hstory'.append (.silently hsilent (.done m''))
  rw [List.append_nil] at hover
  have hrest : Course context.ask.2 m1 [⟨.halted late?, m2⟩] m'' :=
    .closing hover (by simp [Event.IsLast]) (hengine'.trans hengine)
  simpa using Course.instruction hrunning hdone hstory hinside hrest

end Instruction

/-- **The run lemma.**  The induction is over the instructions. -/
lemma course_exec (hm : m.IsSound) (fuel : ℕ) (context : Context) :
    Does (exec fuel context) m
      (fun stopped m' => Underway context m m' ∧ (stopped = true → m'.engine.running = false))
      (fun i m' => ∃ failure, i = .halt (some failure) ∧ Ended context m failure m') := by
  induction fuel generalizing m context with
  | zero => exact ⟨underway_refl context m, by simp⟩
  | succ fuel ih =>
      by_cases hrunning : m.engine.running = true
      · have htick := tick_eq context m
        rw [bind_apply] at htick
        cases hinstruct : instruct m with
        | ok _ m1 =>
            obtain ⟨moments, hstory, hinside, hcalm⟩ :=
              (composed_instruct.recounted m).of_ok hinstruct
            rw [hinstruct] at htick
            rcases hask : context.ask.1 with _ | failure
            · simp only [hask] at htick
              have hm1 := (isSound_tick hm context).of_ok htick
              refine ((ih hm1 context.ask.2).congr (exec_tick hrunning htick fuel)).imp ?_ ?_
              · rintro stopped m' ⟨hunderway, hstopped⟩
                exact ⟨hunderway.instruction hrunning hinstruct hstory hinside hcalm hask, hstopped⟩
              · rintro i m' ⟨failure, rfl, hended⟩
                exact ⟨failure, rfl, hended.instruction hrunning hinstruct hstory hinside
                  hcalm hask⟩
            · obtain ⟨m', hhalt, hended⟩ :=
                ended_of_asked hrunning hinstruct hstory hinside hcalm hask
              simp only [hask] at htick
              refine does_of_error (exec_broken hrunning (htick.trans ?_) fuel)
                ⟨failure, rfl, hended⟩
              exact bind_of_error hhalt
        | error i m1 =>
            rw [hinstruct] at htick
            have hbroken := (composed_instruct.recounted m).of_error hinstruct
            refine does_of_error (exec_broken hrunning htick fuel) ?_
            cases hbroken with
            | halt htold =>
                obtain ⟨moments, hstory, hinside, x, hends, hcause, hengine, hinput⟩ := htold
                exact ⟨_, rfl, moments, x, hends, hcause, hengine, hinput,
                  fun m'' => .broken hrunning hinstruct hstory hinside⟩
            | other hi _ =>
                obtain ⟨cause, rfl⟩ := (isSound_tick hm context).of_error htick
                exact absurd rfl (hi cause)
      · have hstopped : m.engine.running = false := by simpa using hrunning
        exact does_of_ok (exec_stopped hstopped _) ⟨underway_refl context m, fun _ => hstopped⟩

/-! ## Runs -/

/-- The session has ended with the event at `x`, since which nothing was executed or read. -/
structure Finished (moments : List Moment) (x : Moment) (m' : Machine) : Prop where
  ends : EndsAt moments x
  engine : m'.engine = x.machine.engine
  input : m'.input = x.machine.input

/-- When the machine has stopped, the last flush decides how the session ends. -/
lemma course_parted (h : Underway context m m1) (hstopped : m1.engine.running = false) :
    Does (speak Console.flush >>= haltIf) (m1.indent false)
      (fun _ m' => ∃ moments x, Course context m moments m' ∧ Finished moments x m' ∧
        x.event = .parted none)
      (fun i m' => ∃ failure, i = .halt (some failure) ∧ Ended context m failure m') := by
  obtain ⟨moments, hcalm, hcourse⟩ := h
  have hparted := Happens.parted (m := m1.indent false) hstopped
  rw [does_bind]
  rcases hflush : (m1.indent false).console.flush with ⟨failure?, c⟩
  rw [hflush] at hparted
  have hspeak : speak Console.flush (m1.indent false)
      = .ok failure? { m1.indent false with console := c } := by
    rw [speak, hflush]
  refine does_of_ok hspeak ?_
  cases failure? with
  | none =>
      refine ⟨moments ++ [⟨.parted none, _⟩], ⟨.parted none, _⟩,
        hcourse _ _ (.silently (silent_indent false m1) (.of_event hparted))
          (by simp [Event.IsLast]) rfl,
        ⟨(endsAt_single (Or.inr rfl)).prepend hcalm, rfl, rfl⟩, rfl⟩
  | some failure =>
      obtain ⟨late?, m2, m', hhalt, hstory, hengine, hinput⟩ :=
        halt_some (α := Unit) failure { m1.indent false with console := c }
      have hfatal : (Event.parted (some failure)).Fatal := Event.fatal_of_cause rfl
      refine does_of_error hhalt ⟨failure, rfl, moments ++ [⟨.parted (some failure), _⟩] ++
        [⟨.halted late?, m2⟩], ⟨.parted (some failure), _⟩,
        ((endsAt_single hfatal).prepend hcalm).halted late? m2, rfl, hengine, hinput, ?_⟩
      intro m'' hsilent hengine'
      have hover := (hstory.append (.silently hsilent (.done m'')))
      rw [List.append_nil] at hover
      simpa using hcourse _ m'' (.silently (silent_indent false m1) (.event hparted hover))
        (by simp [Event.IsLast]) (hengine'.trans hengine)

lemma runOut_of_stopped {fuel : ℕ} (h : execIndented fuel context m = .ok true m1) :
    runOut fuel context m = ((speak Console.flush >>= haltIf) >>= fun _ => pure true) m1 := by
  rw [runOut, bind_of_ok h]
  rfl

lemma course_runOut (hm : m.IsSound) (fuel : ℕ) (context : Context) :
    Does (runOut fuel context) m
      (fun stopped m' => ∃ moments, Course context (m.indent true) moments m' ∧
        if stopped then ∃ x, Finished moments x m' ∧ x.event = .parted none else Calm moments)
      (fun i m' => ∃ failure, i = .halt (some failure) ∧
        Ended context (m.indent true) failure m') := by
  have hexec := course_exec (m := m.indent true) ⟨hm.engine, hm.input⟩ fuel context
  rcases hresult : exec fuel context (m.indent true) with ⟨_ | _, m1⟩ | ⟨i, m1⟩
  all_goals have hindented := show execIndented fuel context m = _ by rw [execIndented, hresult]
  · obtain ⟨⟨moments, hcalm, hcourse⟩, -⟩ := hexec.of_ok hresult
    refine does_of_ok (bind_of_ok hindented) ⟨moments, ?_, hcalm⟩
    simpa using hcourse [] (m1.indent false) (.silently (silent_indent false m1) (.done _))
      (by simp) rfl
  · obtain ⟨hunderway, hstopped⟩ := hexec.of_ok hresult
    refine Does.congr ?_ (runOut_of_stopped hindented)
    rw [does_bind]
    refine (course_parted hunderway (hstopped rfl)).imp ?_ fun i m' hi => hi
    rintro - m' ⟨moments, x, hcourse, hfinished, hx⟩
    exact ⟨moments, hcourse, x, hfinished, hx⟩
  · obtain ⟨failure, rfl, moments, x, hends, hcause, hengine, hinput, hcourse⟩ :=
      hexec.of_error hresult
    refine does_of_error (bind_of_error hindented) ⟨failure, rfl, ?_⟩
    exact ⟨moments, x, hends, hcause, hengine, hinput,
      fun m'' hsilent hengine' => hcourse m'' ⟨hsilent.console, hsilent.input⟩ hengine'⟩

/-- A run that was halted is answered for the reason, or ends normally at the end of the input. -/
lemma settle_halted (name : Text) (failure : Failure) (m : Machine) :
    ∃ m', settle (.panickedBy name (.haltedBy failure)) m
        = (.ended ((some failure).filter fun failure => !failure.chain.contains .endOfInput), m') ∧
      Becomes m m.engine m' := by
  have hhalt : (Failure.panickedBy name (.haltedBy failure)).halt? = some (some failure) := rfl
  obtain ⟨m', hm', hbecomes⟩ : ∃ m', (if failure.isPanic || failure.isAbandoned
      then m.noted (utf8 "!") fun _ => failure.wording else m) = m' ∧ Becomes m m.engine m' := by
    refine ⟨_, rfl, ?_⟩
    split_ifs
    · exact (becomes_engine m m.engine).noted _ _
    · exact becomes_engine m m.engine
  refine ⟨m', ?_, hbecomes⟩
  rw [settle, hhalt, Option.filter_some]
  simp only [Option.getD_some, hm']
  cases failure.chain.contains .endOfInput <;> rfl

section Ends

variable {fuel : ℕ}

lemma run_of_unfinished (h : exec fuel context (m.indent true) = .ok false m1) :
    run fuel context m = (.unfinished, m1.indent false) := by
  have hindented : execIndented fuel context m = .ok false (m1.indent false) := by
    rw [execIndented, h]
  have hrunOut : runOut fuel context m = .ok false (m1.indent false) := bind_of_ok hindented
  rw [run, hrunOut]

lemma run_of_flushed (h : exec fuel context (m.indent true) = .ok true m1)
    (hflush : m1.console.flush.1 = none) :
    run fuel context m = (.ended none, { m1.indent false with console := m1.console.flush.2 }) := by
  have hindented : execIndented fuel context m = .ok true (m1.indent false) := by
    rw [execIndented, h]
  have hspeak : speak Console.flush (m1.indent false)
      = .ok none { m1.indent false with console := m1.console.flush.2 } := by
    rw [← hflush]
    rfl
  have hparted : (speak Console.flush >>= haltIf) (m1.indent false)
      = .ok () { m1.indent false with console := m1.console.flush.2 } := bind_of_ok hspeak
  rw [run, runOut_of_stopped hindented, bind_of_ok hparted]
  rfl

lemma run_of_halted
    (h : exec fuel context (m.indent true) = .error (.halt (some failure)) m1) :
    ∃ m', run fuel context m
        = (.ended ((some failure).filter fun failure => !failure.chain.contains .endOfInput), m') ∧
      Becomes m1 m1.engine m' := by
  have hindented :
      execIndented fuel context m = .error (.halt (some failure)) (m1.indent false) := by
    rw [execIndented, h]
  obtain ⟨m', hsettle, hm'⟩ := settle_halted (utf8 "VM") failure (m1.indent false)
  refine ⟨m', ?_, hm'.engine, hm'.input, hm'.console⟩
  rw [run, show runOut fuel context m = _ from bind_of_error hindented]
  exact hsettle

end Ends

/-- A run that is broken off has a course up to its first fatal event, and is answered for it. -/
lemma course_broken {i : Interrupt} {fuel : ℕ} (hm : m.IsSound)
    (h : runOut fuel context m = .error i m1) :
    ∃ failure moments x, i = .halt (some failure) ∧
      (run fuel context m).1
        = .ended ((some failure).filter fun failure => !failure.chain.contains .endOfInput) ∧
      Course context (m.indent true) moments (run fuel context m).2 ∧
      Finished moments x (run fuel context m).2 ∧ x.event.cause? = some failure := by
  obtain ⟨failure, rfl, moments, x, hends, hcause, hengine, hinput, hcourse⟩ :=
    (course_runOut hm fuel context).of_error h
  obtain ⟨m', hsettle, hm'⟩ := settle_halted (utf8 "VM") failure m1
  have hrun : run fuel context m = (.ended
      ((some failure).filter fun failure => !failure.chain.contains .endOfInput), m') := by
    rw [run, h]
    exact hsettle
  rw [hrun]
  exact ⟨failure, moments, x, rfl, rfl,
    hcourse m' (silent_of_same hm'.console hm'.input) hm'.engine,
    ⟨hends, hm'.engine.trans hengine, hm'.input.trans hinput⟩, hcause⟩

/-- Every run has a course, and ends with its first fatal event. -/
lemma course_run (hm : m.IsSound) (fuel : ℕ) (context : Context) :
    ∃ moments, Course context (m.indent true) moments (run fuel context m).2 ∧
      match (run fuel context m).1 with
      | .unfinished => Calm moments
      | .ended failure? => ∃ x, Finished moments x (run fuel context m).2 ∧
          failure? = x.event.answer? := by
  have hrunOut := course_runOut hm fuel context
  rcases hresult : runOut fuel context m with ⟨_ | _, m1⟩ | ⟨i, m1⟩
  · obtain ⟨moments, hcourse, hcalm⟩ := hrunOut.of_ok hresult
    rw [run, hresult]
    exact ⟨moments, hcourse, hcalm⟩
  · obtain ⟨moments, hcourse, x, hfinished, hx⟩ := hrunOut.of_ok hresult
    rw [run, hresult]
    exact ⟨moments, hcourse, x, hfinished, by rw [hx]; rfl⟩
  · obtain ⟨failure, moments, x, -, houtcome, hcourse, hfinished, hcause⟩ :=
      course_broken hm hresult
    rw [houtcome]
    exact ⟨moments, hcourse, x, hfinished, by rw [Event.answer?, hcause]⟩

/-- The first instruction of a new machine is broken off. -/
lemma runOut_of_first {settings : List Setting} (hnew : create settings = .ok m)
    (hstep : step (m.indent true) = .error (.halt (some failure)) m1) :
    runOut 1 .background m = .error (.halt (some failure)) (m1.indent false) := by
  have hrunning : (m.indent true).engine.running = true :=
    congrArg Engine.running (fresh_create hnew).engine
  have hexec := exec_broken hrunning (tick_of_halt hstep) 0
  have hindented :
      execIndented 1 .background m = .error (.halt (some failure)) (m1.indent false) := by
    rw [execIndented, hexec]
  exact bind_of_error hindented

/-- **A run answers for its first fatal event.**  Whatever a machine is made from, whatever it reads
and writes to, and whenever it is called off, its session goes through events of which none is
fatal, until one is: a failure of a read, of a write or of a flush, a context that is done, the end
of all input, or the last flush after the machine has stopped.  Since that one nothing was executed
or read, and the answer is its failure, even if the output fails again while the session is halted;
there is none at the end of the input, and none if the last flush succeeds.  Nothing but such a halt
ever breaks off a run.

A failure that has the end of the input at its bottom is taken for the end of the input, whatever it
is that failed (`Event.answer?`): it is the one kind of failure that is not answered for. -/
theorem run_answers_first_event {settings : List Setting} {m₀ : Machine}
    (hnew : create settings = .ok m₀) (fuel : ℕ) (context : Context) :
    (∀ i m, runOut fuel context m₀ = .error i m → ∃ failure, i = .halt (some failure)) ∧
      ∃ moments, Course context (m₀.indent true) moments (run fuel context m₀).2 ∧
        match (run fuel context m₀).1 with
        | .unfinished => Calm moments
        | .ended failure? => ∃ x, EndsAt moments x ∧ failure? = x.event.answer? ∧
            (run fuel context m₀).2.engine = x.machine.engine ∧
            (run fuel context m₀).2.input = x.machine.input := by
  have hm₀ := (fresh_create hnew).isSound
  refine ⟨fun i m herror => ?_, ?_⟩
  · obtain ⟨failure, rfl, -⟩ := (course_runOut hm₀ fuel context).of_error herror
    exact ⟨failure, rfl⟩
  · obtain ⟨moments, hcourse, houtcome⟩ := course_run hm₀ fuel context
    refine ⟨moments, hcourse, ?_⟩
    cases hanswer : (run fuel context m₀).1 with
    | unfinished => rw [hanswer] at houtcome; exact houtcome
    | ended failure? =>
        rw [hanswer] at houtcome
        obtain ⟨x, hfinished, hx⟩ := houtcome
        exact ⟨x, hfinished.ends, hx, hfinished.engine, hfinished.input⟩

theorem run_answers_first_event_of_prompt :
    ∃ m₀, create [.output (.direct (.limited (some 0) false (some .canceled))),
        .input { name := [], lines := [utf8 "1 .\n"] } none] = .ok m₀ ∧
      (run 1 .background m₀).1 = .ended (some Device.full) ∧
      ∃ moments x, Course .background (m₀.indent true) moments (run 1 .background m₀).2 ∧
        EndsAt moments x ∧ some Device.full = x.event.answer? := by
  obtain ⟨m₀, hnew⟩ : ∃ m₀, create [.output (.direct (.limited (some 0) false (some .canceled))),
      .input { name := [], lines := [utf8 "1 .\n"] } none] = .ok m₀ := ⟨_, rfl⟩
  have hrun : (run 1 .background m₀).1 = .ended (some Device.full) := by
    obtain ⟨m, hstep⟩ : ∃ m, step (m₀.indent true) = .error (.halt (some Device.full)) m := by
      cases hnew
      exact ⟨_, prompt_broken rfl rfl⟩
    obtain ⟨f, moments, x, hf, hrun, -⟩ :=
      course_broken (fresh_create hnew).isSound (runOut_of_first hnew hstep)
    cases hf
    exact hrun
  obtain ⟨moments, hcourse, houtcome⟩ := (run_answers_first_event hnew 1 .background).2
  rw [hrun] at houtcome
  obtain ⟨x, hends, hx, -, -⟩ := houtcome
  exact ⟨m₀, hnew, hrun, moments, x, hcourse, hends, hx⟩

/-- A device that refuses everything, and a stream that cannot be read, with a failure that is not
the end of the input but has it at its bottom: the first fatal event is their failure, and it is not
answered for. -/
theorem failure_taken_for_end :
    let failure : Failure := .noted (utf8 "disk") .endOfInput
    let device : Device := { onWrite := fun _ _ => ⟨0, some failure⟩, onFlush := fun _ => none }
    ∀ settings ∈ [[.output (.direct device), .input (.ofText [] (utf8 "7 .\n")) none],
        [.input (.failing [] [] failure) none]],
      ∃ m₀, create settings = .ok m₀ ∧ (run 1 .background m₀).1 = .ended none ∧
        ∃ moments x, Course .background (m₀.indent true) moments (run 1 .background m₀).2 ∧
          EndsAt moments x ∧ x.event.cause? = some failure := by
  intro failure device settings hsettings
  obtain ⟨m₀, m, hnew, hstep⟩ : ∃ m₀ m, create settings = .ok m₀ ∧
      step (m₀.indent true) = .error (.halt (some failure)) m := by
    rcases List.mem_cons.mp hsettings with rfl | hsettings
    · exact ⟨_, _, rfl, prompt_broken rfl rfl⟩
    · rw [List.mem_singleton.mp hsettings]
      exact ⟨_, _, rfl, prompt_broken rfl rfl⟩
  obtain ⟨f, moments, x, hf, hrun, hcourse, hfinished, hcause⟩ :=
    course_broken (fresh_create hnew).isSound (runOut_of_first hnew hstep)
  cases hf
  exact ⟨m₀, hnew, hrun, moments, x, hcourse, hfinished.ends, hcause⟩

end Machine

end ColonMachine
