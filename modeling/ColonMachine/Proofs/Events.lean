import ColonMachine.Proofs.Composition
import ColonMachine.Proofs.Faults

/-!
# The events of a session

An **event** is a dealing of a session with the world outside: a piece is handed to the output, the
output is flushed, a stream is read, the context is asked whether to go on.  Some events are
**fatal**, and then the session ends.

* `Happens` says what each event does to a machine, in terms of the console and of the source alone.
* `Story m moments m'` is a way from `m` to `m'` along events, with nothing but `Silent` changes
  between them.  What a machine is left to do between two events is open, but nothing is handed to
  the output, flushed or read without an event.
* `Course` is a story that is made of whole instructions, with the context asked after each.
* `Told` is what can be told of an action: no event of it is fatal, or the first that is fatal is
  also the last one, but for the flush with which a session is halted.

Every action has a story (`Composed.recounted`, by an induction over what actions are made of),
hence every run has a course (`recounted_run`).  So `run_answers_first_event`: the answer of a run
is the failure of the first fatal event, whatever fails later.
-/

namespace ColonMachine

/-- A dealing of a session with the world outside. -/
inductive Event where
  /-- A piece was handed to the output. -/
  | wrote (failure? : Option Failure)
  /-- The output was to be flushed before a line is read, and that failed. -/
  | stuck (failure : Failure)
  /-- The output was flushed and the current stream was read.  It gave a line, or was at its end and
  another one was queued, or it failed. -/
  | read (failure? : Option Failure)
  /-- The next stream was begun. -/
  | opened
  /-- The output was flushed and the last stream was found at its end. -/
  | exhausted
  /-- There was no stream to read. -/
  | nothing
  /-- The context was asked whether to go on. -/
  | asked (cause? : Option Failure)
  /-- The machine had stopped, and the output was flushed. -/
  | parted (failure? : Option Failure)
  /-- The session was being halted, and the output was flushed. -/
  | halted (late? : Option Failure)

namespace Event

/-- Why the session cannot go on after an event. -/
def cause? : Event → Option Failure
  | wrote failure? | read failure? | asked failure? | parted failure? => failure?
  | stuck failure => some failure
  | exhausted | nothing => some .endOfInput
  | opened | halted _ => none

/-- The event ends the session. -/
def Fatal (e : Event) : Prop := e.cause? ≠ none ∨ e = parted none

/-- The event can come up while an instruction is executed. -/
def Inside : Event → Prop
  | asked _ | parted _ => False
  | _ => True

/-- The event is a flush after which nothing is read or executed any more. -/
def IsLast : Event → Prop
  | parted _ | halted _ => True
  | _ => False

/-- What a run answers that ends with the event.  A failure which the end of the input is at the
bottom of is a normal end. -/
def answer? (e : Event) : Option Failure :=
  e.cause?.filter fun failure => !failure.chain.contains .endOfInput

lemma fatal_of_cause {e : Event} {failure : Failure} (h : e.cause? = some failure) : e.Fatal :=
  Or.inl (by simp [h])

end Event

/-- An event, and the machine right after it. -/
structure Moment where
  event : Event
  machine : Machine

namespace Machine

/-! ## Stories -/

/-- From `m` to `m'`, nothing is handed to the output, nothing is flushed, and no stream is read. -/
structure Silent (m m' : Machine) : Prop where
  console : m'.console = { m.console with reported := m'.console.reported }
  input : m'.input =
    { m.input with buffer := m'.input.buffer, prompting := m'.input.prompting }

/-- What an event does to a machine. -/
inductive Happens (m : Machine) : Event → Machine → Prop where
  | wrote (manner : Manner) (piece : Text) :
      Happens m (.wrote (m.console.hand manner piece).1)
        { m with console := (m.console.hand manner piece).2 }
  | stuck {failure : Failure} {c : Console} (hsettle : m.console.settle = (some failure, c)) :
      Happens m (.stuck failure) { m with console := c }
  | line {stream : Stream} {line : Text} {rest : List Text} {c : Console}
      (hstream : m.input.current = some stream) (hlines : stream.lines = line :: rest)
      (hsettle : m.console.settle = (none, c)) :
      Happens m (.read none) { m with console := c, input := m.input.take stream line rest }
  | ended {stream : Stream} {c : Console} (hstream : m.input.current = some stream)
      (hlines : stream.lines = []) (hfailure : stream.failure = none) (hqueue : m.input.queue ≠ [])
      (hsettle : m.console.settle = (none, c)) : Happens m (.read none) { m with console := c }
  | failed {stream : Stream} {failure : Failure} {c : Console}
      (hstream : m.input.current = some stream) (hlines : stream.lines = [])
      (hfailure : stream.failure = some failure) (hsettle : m.console.settle = (none, c)) :
      Happens m (.read (some failure)) { m with console := c }
  | opened {stream : Stream} {queue : List Stream} (hqueue : m.input.queue = stream :: queue) :
      Happens m .opened { m with input := m.input.begun stream queue }
  | exhausted {stream : Stream} {c : Console} (hstream : m.input.current = some stream)
      (hlines : stream.lines = []) (hfailure : stream.failure = none) (hqueue : m.input.queue = [])
      (hsettle : m.console.settle = (none, c)) :
      Happens m .exhausted
        { m with console := c, input := { m.input with queue := [], current := none } }
  | nothing (hcurrent : m.input.current = none) (hqueue : m.input.queue = []) :
      Happens m .nothing { m with input := { m.input with queue := [], current := none } }
  | asked (cause? : Option Failure) : Happens m (.asked cause?) m
  | parted (hstopped : m.engine.running = false) :
      Happens m (.parted m.console.flush.1) { m with console := m.console.flush.2 }
  | halted : Happens m (.halted m.console.flush.1) { m with console := m.console.flush.2 }

/-- A way from one machine to another along events. -/
inductive Story : Machine → List Moment → Machine → Prop where
  | done (m : Machine) : Story m [] m
  | silently {m m1 m' : Machine} {moments : List Moment} (h : Silent m m1)
      (rest : Story m1 moments m') : Story m moments m'
  | event {m m1 m' : Machine} {moments : List Moment} {e : Event} (h : Happens m e m1)
      (rest : Story m1 moments m') : Story m (⟨e, m1⟩ :: moments) m'

variable {α : Type} {m m' m1 m2 : Machine} {moments later : List Moment} {failure : Failure}
  {failure? : Option Failure} {c : Console}

lemma Story.append (h : Story m moments m1) (h' : Story m1 later m') :
    Story m (moments ++ later) m' := by
  induction h with
  | done => exact h'
  | silently hsilent _ ih => exact .silently hsilent (ih h')
  | event hevent _ ih => exact .event hevent (ih h')

lemma Story.of_event {e : Event} (h : Happens m e m') : Story m [⟨e, m'⟩] m' := .event h (.done m')

/-- No event is fatal, and the session goes on after each. -/
def Calm (moments : List Moment) : Prop := ∀ x ∈ moments, ¬ x.event.Fatal ∧ ¬ x.event.IsLast

lemma calm_append : Calm (moments ++ later) ↔ Calm moments ∧ Calm later := List.forall_mem_append

lemma calm_nil : Calm [] := by simp [Calm]

/-- The event at `x` is the first one that is fatal, and after it the session is only halted. -/
def EndsAt (moments : List Moment) (x : Moment) : Prop :=
  ∃ before after, moments = before ++ x :: after ∧ Calm before ∧ x.event.Fatal ∧
    ∀ y ∈ after, ∃ late?, y.event = .halted late?

lemma EndsAt.fatal {x : Moment} (h : EndsAt moments x) : x.event.Fatal := by
  obtain ⟨-, -, -, -, hfatal, -⟩ := h
  exact hfatal

lemma EndsAt.mem {x : Moment} (h : EndsAt moments x) : x ∈ moments := by
  obtain ⟨before, after, rfl, -⟩ := h
  exact List.mem_append_right _ List.mem_cons_self

lemma EndsAt.prepend {x : Moment} (h : EndsAt later x) (hcalm : Calm moments) :
    EndsAt (moments ++ later) x := by
  obtain ⟨before, after, rfl, hbefore, hfatal, hafter⟩ := h
  exact ⟨moments ++ before, after, by simp, calm_append.mpr ⟨hcalm, hbefore⟩, hfatal, hafter⟩

lemma EndsAt.halted {x : Moment} (h : EndsAt moments x) (late? : Option Failure) (m : Machine) :
    EndsAt (moments ++ [⟨.halted late?, m⟩]) x := by
  obtain ⟨before, after, rfl, hbefore, hfatal, hafter⟩ := h
  refine ⟨before, after ++ [⟨.halted late?, m⟩], by simp, hbefore, hfatal, ?_⟩
  intro y hy
  rcases List.mem_append.mp hy with hy | hy
  · exact hafter y hy
  · rw [List.mem_singleton.mp hy]
    exact ⟨late?, rfl⟩

lemma endsAt_single {x : Moment} (hfatal : x.event.Fatal) : EndsAt [x] x :=
  ⟨[], [], rfl, calm_nil, hfatal, by simp⟩

/-- What can be told of the way from `m` to `m'` inside of an instruction: without a failure, no
event was fatal; with a failure, it is that of the first fatal event, since which the engine and the
source are as they were. -/
def Told (m : Machine) (failure? : Option Failure) (m' : Machine) : Prop :=
  ∃ moments, Story m moments m' ∧ (∀ x ∈ moments, x.event.Inside) ∧ match failure? with
    | none => Calm moments
    | some failure => ∃ x, EndsAt moments x ∧ x.event.cause? = some failure ∧
        m'.engine = x.machine.engine ∧ m'.input = x.machine.input

lemma told_refl (m : Machine) : Told m none m := ⟨[], .done m, by simp, calm_nil⟩

lemma Silent.told (h : Silent m m') : Told m none m' :=
  ⟨[], .silently h (.done m'), by simp, calm_nil⟩

lemma Told.trans (h : Told m none m1) (h' : Told m1 failure? m') : Told m failure? m' := by
  obtain ⟨moments, hstory, hinside, hcalm⟩ := h
  obtain ⟨later, hstory', hinside', hlater⟩ := h'
  refine ⟨moments ++ later, hstory.append hstory',
    List.forall_mem_append.mpr ⟨hinside, hinside'⟩, ?_⟩
  cases failure? with
  | none => exact calm_append.mpr ⟨hcalm, hlater⟩
  | some failure =>
      obtain ⟨x, hends, hcause, hsame⟩ := hlater
      exact ⟨x, hends.prepend hcalm, hcause, hsame⟩

lemma calm_single {x : Moment} (hcause : x.event.cause? = none) (hlast : ¬ x.event.IsLast) :
    Calm [x] := by
  intro y hy
  rw [List.mem_singleton.mp hy]
  refine ⟨?_, hlast⟩
  rintro (hfatal | hparted)
  · exact hfatal hcause
  · rw [hparted] at hlast
    exact hlast trivial

lemma Happens.told {e : Event} (h : Happens m e m') (hinside : e.Inside) (hlast : ¬ e.IsLast) :
    Told m e.cause? m' := by
  refine ⟨[⟨e, m'⟩], .of_event h, by simpa using hinside, ?_⟩
  cases hcause : e.cause? with
  | none => exact calm_single hcause hlast
  | some failure => exact ⟨⟨e, m'⟩, endsAt_single (Event.fatal_of_cause hcause), hcause, rfl, rfl⟩

/-! ## Silent changes -/

lemma silent_of_same (hconsole : m'.console = m.console) (hinput : m'.input = m.input) :
    Silent m m' := by
  refine ⟨?_, ?_⟩
  · rw [hconsole]
  · rw [hinput]

lemma silent_noted (mark : Text) (message : Machine → Text) (m : Machine) :
    Silent m (noted mark message m) :=
  silent_of_same (console_noted ..) (input_noted ..)

lemma silent_indent (on : Bool) (m : Machine) : Silent m (m.indent on) := ⟨rfl, rfl⟩

lemma silent_buffer (m : Machine) (buffer : Option (List Text)) :
    Silent m { m with input := { m.input with buffer } } := ⟨rfl, rfl⟩

/-! ## Reading a line -/

section Reading

variable (mode : Mode)

lemma told_write (t : Text) (m : Machine) :
    Told m (m.console.write t).1 { m with console := (m.console.write t).2 } := by
  rw [Console.write]
  split_ifs
  · exact told_refl m
  · exact (Happens.wrote .chars t).told trivial id

/-- What comes before a read fails with the write of a prompt or with the flush. -/
lemma told_of_announce_some
    (h : m.input.announce (Console.hooks mode) m.console = (some failure, c)) :
    Told m (some failure) { m with console := c } := by
  have hflush : ∀ m1 : Machine, m1.console.settle = (some failure, c) →
      Told m1 (some failure) { m1 with console := c } :=
    fun m1 hsettle => (Happens.stuck hsettle).told trivial id
  rw [Source.announce] at h
  split_ifs at h
  · have hprompt := told_write (if m.console.reported
      then (m.console.prompts.of mode).dropLead [Text.newline] else m.console.prompts.of mode) m
    simp only [Console.hooks, Console.showPrompt] at h
    generalize Console.write _ m.console = written at h hprompt
    obtain ⟨_ | late, c1⟩ := written
    · exact hprompt.trans (hflush { m with console := c1 } h)
    · cases h
      exact hprompt
  · exact hflush m h

/-- If nothing fails that comes before a read, the flush was the last of it. -/
lemma told_of_announce_none (h : m.input.announce (Console.hooks mode) m.console = (none, c)) :
    ∃ c1, Told m none { m with console := c1 } ∧ c1.settle = (none, c) := by
  rw [Source.announce] at h
  split_ifs at h
  · have hprompt := told_write (if m.console.reported
      then (m.console.prompts.of mode).dropLead [Text.newline] else m.console.prompts.of mode) m
    simp only [Console.hooks, Console.showPrompt] at h
    generalize Console.write _ m.console = written at h hprompt
    obtain ⟨_ | late, c1⟩ := written
    · exact ⟨c1, hprompt, h⟩
    · cases h
  · exact ⟨m.console, told_refl m, h⟩

/-- What can be told of an attempt to read a line.  At the end of a stream the flush is left to be
told, since it depends on the streams behind what it is a part of. -/
lemma told_attempt {stream : Stream} (hstream : m.input.current = some stream) :
    match m.input.attempt (Console.hooks mode) stream m.console with
    | .line src c => Told m none { m with input := src, console := c }
    | .failed failure c => Told m (some failure) { m with console := c }
    | .ended c => stream.lines = [] ∧ stream.failure = none ∧
        ∃ c1, Told m none { m with console := c1 } ∧ c1.settle = (none, c) := by
  rw [Source.attempt]
  rcases hannounce : m.input.announce (Console.hooks mode) m.console with ⟨_ | failure, c⟩
  · obtain ⟨c1, htold, hsettle⟩ := told_of_announce_none mode hannounce
    rcases hlines : stream.lines with _ | ⟨line, rest⟩
    · rcases hfailure : stream.failure with _ | failure
      · exact ⟨rfl, rfl, c1, htold, hsettle⟩
      · exact htold.trans ((Happens.failed (m := { m with console := c1 }) hstream hlines hfailure
          hsettle).told trivial id)
    · exact htold.trans ((Happens.line (m := { m with console := c1 }) hstream hlines
        hsettle).told trivial id)
  · exact told_of_announce_some mode hannounce

/-- Reading from the current stream on, if what comes after its end can be told. -/
lemma told_readOn_of_ended {stream : Stream} (hstream : m.input.current = some stream)
    (hended : ∀ c1 c, stream.lines = [] → stream.failure = none →
    Told m none { m with console := c1 } →
      c1.settle = (none, c) →
      Told m (Source.readQueued (Console.hooks mode) m.input.queue m.input c).1 { m with
        input := (Source.readQueued (Console.hooks mode) m.input.queue m.input c).2.1
        console := (Source.readQueued (Console.hooks mode) m.input.queue m.input c).2.2 }) :
    Told m (m.input.readOn (Console.hooks mode) stream m.console).1 { m with
      input := (m.input.readOn (Console.hooks mode) stream m.console).2.1
      console := (m.input.readOn (Console.hooks mode) stream m.console).2.2 } := by
  have hattempt := told_attempt mode hstream
  rw [Source.readOn]
  cases h : m.input.attempt (Console.hooks mode) stream m.console with
  | line src c => rw [h] at hattempt; exact hattempt
  | failed failure c => rw [h] at hattempt; exact hattempt
  | ended c =>
      rw [h] at hattempt
      obtain ⟨hlines, hfailure, c1, htold, hsettle⟩ := hattempt
      exact hended c1 c hlines hfailure htold hsettle

/-- What can be told of reading a line, from the current stream on.  The induction is over the
streams behind it. -/
lemma told_readOn {queue : List Stream} {stream : Stream} (hqueue : m.input.queue = queue)
    (hstream : m.input.current = some stream) :
    Told m (m.input.readOn (Console.hooks mode) stream m.console).1 { m with
      input := (m.input.readOn (Console.hooks mode) stream m.console).2.1
      console := (m.input.readOn (Console.hooks mode) stream m.console).2.2 } := by
  induction queue generalizing m stream with
  | nil =>
      refine told_readOn_of_ended mode hstream fun c1 c hlines hfailure htold hsettle => ?_
      rw [hqueue]
      exact htold.trans ((Happens.exhausted (m := { m with console := c1 }) hstream hlines hfailure
        hqueue hsettle).told trivial id)
  | cons next queue ih =>
      refine told_readOn_of_ended mode hstream fun c1 c hlines hfailure htold hsettle => ?_
      rw [hqueue, Source.readQueued_cons]
      have hended := (Happens.ended (m := { m with console := c1 }) hstream hlines hfailure
        (by simp [hqueue]) hsettle).told trivial id
      have hopened := (Happens.opened (m := { m with console := c }) hqueue).told trivial id
      have hrest := ih (m := { m with console := c, input := m.input.begun next queue }) rfl rfl
      exact htold.trans (hended.trans (hopened.trans hrest))

lemma told_readLine (m : Machine) :
    Told m (m.input.readLine (Console.hooks mode) m.console).1 { m with
      input := (m.input.readLine (Console.hooks mode) m.console).2.1
      console := (m.input.readLine (Console.hooks mode) m.console).2.2 } := by
  rcases hcurrent : m.input.current with _ | stream
  · rw [Source.readLine_of_none hcurrent]
    rcases hqueue : m.input.queue with _ | ⟨stream, queue⟩
    · exact (Happens.nothing hcurrent hqueue).told trivial id
    · rw [Source.readQueued_cons]
      refine Told.trans ((Happens.opened hqueue).told trivial id) ?_
      exact told_readOn (m := { m with input := m.input.begun stream queue }) mode rfl rfl
  · rw [Source.readLine_of_some hcurrent]
    exact told_readOn mode rfl hcurrent

/-- What can be told of taking a word from the source. -/
lemma told_nextWord (m : Machine) :
    match m.input.nextWord (Console.hooks mode) m.console with
    | (.ok _, src, c) => Told m none { m with input := src, console := c }
    | (.error failure, src, c) => Told m (some failure) { m with input := src, console := c } := by
  have hpop : ∀ m1 : Machine, Told m1 none { m1 with input := m1.input.popWord.2 } := by
    intro m1
    rw [Source.popWord]
    split <;> exact (silent_buffer m1 _).told
  have hline := told_readLine mode m
  rw [Source.nextWord]
  split_ifs
  · generalize m.input.readLine (Console.hooks mode) m.console = read at hline
    obtain ⟨_ | failure, src, c⟩ := read
    · exact hline.trans (hpop { m with input := src, console := c })
    · exact hline
  · exact hpop m

end Reading

/-! ## Actions -/

/-- How an action is broken off: by a halt for the failure of the first fatal event, or by something
else and without a fatal event. -/
inductive BrokenOff (m : Machine) : Interrupt → Machine → Prop where
  | halt {failure : Failure} {m' : Machine} (h : Told m (some failure) m') :
      BrokenOff m (.halt (some failure)) m'
  | other {i : Interrupt} {m' : Machine} (hi : ∀ cause, i ≠ .halt cause) (h : Told m none m') :
      BrokenOff m i m'

/-- What can be told of an action, wherever it begins. -/
def Recounted (act : Act α) : Prop := ∀ m, Does act m (fun _ m' => Told m none m') (BrokenOff m)

lemma Told.brokenOff {i : Interrupt} (h : Told m none m1) (h' : BrokenOff m1 i m') :
    BrokenOff m i m' := by
  cases h' with
  | halt h' => exact .halt (h.trans h')
  | other hi h' => exact .other hi (h.trans h')

namespace Recounted

variable {β : Type} {act : Act α} {next : α → Act β}

lemma bind (h : Recounted act) (hnext : ∀ a, Recounted (next a)) : Recounted (act >>= next) := by
  intro m
  rw [does_bind]
  refine (h m).imp (fun a m1 h1 => ?_) fun i m' hi => hi
  exact (hnext a m1).imp (fun b m' h' => h1.trans h') fun i m' hi => h1.brokenOff hi

lemma get {next : Machine → Act α} (h : ∀ m, Recounted (next m)) :
    Recounted ((get : Act Machine) >>= next) := fun m => h m m

lemma attempt (h : Recounted act) : Recounted (attempt act) := by
  intro m
  have hact := h m
  rw [Does] at hact ⊢
  rw [ColonMachine.attempt]
  rcases hresult : act m with ⟨a, m'⟩ | ⟨what | cause | payload | _, m'⟩
  all_goals rw [hresult] at hact
  · exact hact
  · cases hact with
    | other _ h' => exact h'
  · exact hact
  · exact hact
  · exact hact

/-- The induction is over what is left to be read. -/
lemma loop {body : Act (Option α)} (h : Recounted body) (hrepeats : Repeats body act) :
    Recounted act := by
  intro m
  induction hpending : m.pending using Nat.strongRecOn generalizing m with
  | _ n ih =>
    rcases hbody : body m with ⟨_ | a, m1⟩ | ⟨i, m1⟩
    · obtain ⟨hagain, hless⟩ := hrepeats.again hbody
      have htold := (h m).of_ok hbody
      refine ((ih _ (hpending ▸ hless) m1 rfl).congr hagain).imp (fun a m' h' => ?_)
        fun i m' hi => ?_
      · exact htold.trans h'
      · exact htold.brokenOff hi
    · exact does_of_ok (hrepeats.done hbody) ((h m).of_ok hbody)
    · exact does_of_error (hrepeats.broken hbody) ((h m).of_error hbody)

end Recounted

lemma recounted_modify {f : Machine → Machine} (h : ∀ m, Silent m (f m)) :
    Recounted (modify f : Act Unit) := fun m => (h m).told

lemma recounted_note (mark : Text) (message : Machine → Text) : Recounted (note mark message) :=
  recounted_modify (silent_noted mark message)

/-- Whatever the flush of a halt comes to, the session is halted for the failure that there was. -/
lemma halt_some (failure : Failure) (m : Machine) :
    ∃ late? m1 m', (halt (some failure) : Act α) m = .error (.halt (some failure)) m' ∧
      Story m [⟨.halted late?, m1⟩] m' ∧ m'.engine = m.engine ∧ m'.input = m.input :=
  ⟨_, _, _, rfl, .event .halted (.silently (silent_noted ..) (.done _)), engine_noted ..,
    input_noted ..⟩

lemma does_halt {ok : α → Machine → Prop} (h : Told m (some failure) m1) :
    Does (halt (some failure) : Act α) m1 ok (BrokenOff m) := by
  obtain ⟨moments, hstory, hinside, x, hends, hcause, hengine, hinput⟩ := h
  obtain ⟨late?, m2, m', hhalt, hstory', hengine', hinput'⟩ := halt_some (α := α) failure m1
  refine does_of_error hhalt (.halt ⟨_, hstory.append hstory', ?_, x, hends.halted late? m2, hcause,
    hengine'.trans hengine, hinput'.trans hinput⟩)
  exact List.forall_mem_append.mpr ⟨hinside, by simp [Event.Inside]⟩

lemma does_haltIf (h : Told m failure? m1) :
    Does (haltIf failure?) m1 (fun _ m' => Told m none m') (BrokenOff m) := by
  cases failure? with
  | none => exact h
  | some failure => exact does_halt h

lemma recounted_speak {act : Console → Option Failure × Console}
    (h : ∀ m : Machine, Told m (act m.console).1 { m with console := (act m.console).2 }) :
    Recounted (speak act >>= haltIf) := by
  intro m
  rw [does_bind]
  exact does_haltIf (h m)

lemma recounted_write (t : Text) : Recounted (write t) := recounted_speak (told_write t)

lemma recounted_print (t : Text) : Recounted (print t) :=
  recounted_speak fun _ => (Happens.wrote .bytes t).told trivial id

lemma recounted_report (message : Text) : Recounted (report message) := by
  refine (recounted_note _ _).bind fun _ => .get fun _ => ?_
  refine (recounted_write _).bind fun _ => (recounted_write _).bind fun _ => ?_
  refine Recounted.bind (recounted_modify fun m => ?_) fun _ => recounted_modify fun m => ?_
  · exact ⟨rfl, rfl⟩
  · exact silent_buffer m _

lemma recounted_nextWord : Recounted nextWord := by
  intro m
  have htold := told_nextWord m.engine.mode m
  have hnext := nextWord_eq m
  generalize m.input.nextWord (Console.hooks m.engine.mode) m.console = read at htold hnext
  obtain ⟨failure | _ | word, src, c⟩ := read
  · exact (does_halt htold).congr hnext
  · exact does_of_ok hnext htold
  · exact does_of_ok hnext (htold.trans (silent_noted ..).told)

/-- **The step lemma.**  Something can be told of every action. -/
lemma Composed.recounted {act : Act α} (h : Composed act) : Recounted act := by
  induction h with
  | pure a => exact fun m => told_refl m
  | bind _ _ ih ihnext => exact ih.bind ihnext
  | look _ _ ih => exact .get ih
  | throw hi => exact fun m => .other hi (told_refl m)
  | engine f => exact recounted_modify fun _ => ⟨rfl, rfl⟩
  | prompting on => exact recounted_modify fun _ => ⟨rfl, rfl⟩
  | note mark message => exact recounted_note mark message
  | write t => exact recounted_write t
  | print t => exact recounted_print t
  | report message => exact recounted_report message
  | nextWord => exact recounted_nextWord
  | attempt _ ih => exact ih.attempt
  | loop _ hrepeats ih => exact ih.loop hrepeats

end Machine

end ColonMachine
