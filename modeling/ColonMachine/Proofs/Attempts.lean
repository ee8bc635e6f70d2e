import ColonMachine.Proofs.Delivery

/-!
# Hooks and reads

A source calls its hooks before it reads, and does not say when it reads.  To see both, reading is
written out once more with a **watch** (`Watch`), which is told of every attempt to read from a
stream at the very moment when the stream is asked for a line.  A watch that merely keeps a log of
the hooks and of the attempts does not change anything: without the log, what is left is the source,
and without the attempts, what is left of the log is one that the hooks of a source can keep by
themselves (`nextWord_shown`).

* `schedule` is the log that is to be expected of a source until it is at its end.  What an attempt
  adds to the log, it takes off the schedule (`logged_nextWord`), until nothing is left
  (`log_at_end`).
* The place and the text of each line come with the words of it, by `Source.coming_iterate`.

The main result is `attempts_and_places`.
-/

namespace ColonMachine

namespace Source

variable {δ ε : Type} {hooks : Hooks ε} {src : Source} {stream : Stream}

/-! ## A source that is watched -/

/-- Hooks, and what is told of each attempt to read a line from a stream. -/
structure Watch (ε : Type) extends Hooks ε where
  read : Stream → ε → ε

def attemptSeen (watch : Watch ε) (stream : Stream) (src : Source) (env : ε) : Attempt ε :=
  match src.announce watch.toHooks env with
  | (some failure, env) => .failed failure env
  | (none, env) =>
    let env := watch.read stream env
    match stream.lines with
    | line :: rest => .line (src.take stream line rest) env
    | [] =>
      match stream.failure with
      | some failure => .failed failure env
      | none => .ended env

def readQueuedSeen (watch : Watch ε) : List Stream → Source → ε → Option Failure × Source × ε
  | [], src, env => (some .endOfInput, { src with queue := [], current := none }, env)
  | stream :: queue, src, env =>
    let src := src.begun stream queue
    match src.attemptSeen watch stream env with
    | .line src env => (none, src, env)
    | .failed failure env => (some failure, src, env)
    | .ended env => readQueuedSeen watch queue src env

def readOnSeen (watch : Watch ε) (stream : Stream) (src : Source) (env : ε) :
    Option Failure × Source × ε :=
  match src.attemptSeen watch stream env with
  | .line src env => (none, src, env)
  | .failed failure env => (some failure, src, env)
  | .ended env => readQueuedSeen watch src.queue src env

def readLineSeen (watch : Watch ε) (src : Source) (env : ε) : Option Failure × Source × ε :=
  match src.current with
  | none => readQueuedSeen watch src.queue src env
  | some stream => src.readOnSeen watch stream env

def nextWordSeen (watch : Watch ε) (src : Source) (env : ε) :
    Except Failure (Option Text) × Source × ε :=
  if src.isEmpty then
    match src.readLineSeen watch env with
    | (some failure, src, env) => (.error failure, src, env)
    | (none, src, env) => (.ok src.popWord.1, src.popWord.2, env)
  else (.ok src.popWord.1, src.popWord.2, env)

/-- What happens when a line is to be read. -/
inductive Event where
  | prompt
  | flush
  /-- The stream of that name is asked for a line.  It gives one, or is at its end. -/
  | read (name : Text) (line : Option Text)
  deriving DecidableEq

/-- Whether a hook was called. -/
def Event.isCall : Event → Bool
  | .read _ _ => false
  | _ => true

/-- The watch that keeps a log of the hooks and of the reads. -/
def logging (hooks : Hooks ε) : Watch (ε × List Event) where
  prompt loc env := ((hooks.prompt loc env.1).1, (hooks.prompt loc env.1).2, env.2 ++ [.prompt])
  flush env := ((hooks.flush env.1).1, (hooks.flush env.1).2, env.2 ++ [.flush])
  read stream env := (env.1, env.2 ++ [.read stream.name stream.lines.head?])

/-- The next word, with what it puts into the log. -/
def listen (hooks : Hooks ε) (s : Source × ε × List Event) : Source × ε × List Event :=
  (s.1.nextWordSeen (logging hooks) s.2).2

/-! ## A watch changes nothing -/

/-- All that `view` shows of the watch is the hooks. -/
structure Watch.Shows (watch : Watch δ) (view : δ → ε) (hooks : Hooks ε) : Prop where
  prompt : ∀ loc env, hooks.prompt loc (view env)
    = ((watch.prompt loc env).1, view (watch.prompt loc env).2)
  flush : ∀ env, hooks.flush (view env) = ((watch.flush env).1, view (watch.flush env).2)
  read : ∀ stream env, view (watch.read stream env) = view env

lemma shows_hooks (hooks : Hooks ε) : (logging hooks).Shows Prod.fst hooks :=
  ⟨fun _ _ => rfl, fun _ => rfl, fun _ _ => rfl⟩

/-- Without the reads, the log is one that hooks alone can keep. -/
lemma shows_calls (hooks : Hooks ε) :
    (logging hooks).Shows (fun env => (env.1, env.2.filter Event.isCall))
      (logging hooks).toHooks where
  prompt loc env := by
    simp only [logging, List.filter_append]
    rfl
  flush env := by
    simp only [logging, List.filter_append]
    rfl
  read stream env := by simp [logging, Event.isCall]

/-- A result with what `view` shows of the surroundings. -/
def shown {α : Type} (view : δ → ε) (r : α × Source × δ) : α × Source × ε :=
  (r.1, r.2.1, view r.2.2)

def Attempt.shown (view : δ → ε) : Attempt δ → Attempt ε
  | .line src env => .line src (view env)
  | .failed failure env => .failed failure (view env)
  | .ended env => .ended (view env)

lemma readQueuedSeen_cons (watch : Watch ε) (stream : Stream) (queue : List Stream) (src : Source)
    (env : ε) :
    readQueuedSeen watch (stream :: queue) src env = (src.begun stream queue).readOnSeen watch
      stream env := rfl

section Shown

variable {watch : Watch δ} {view : δ → ε} (hview : watch.Shows view hooks)
include hview

lemma announce_shown (src : Source) (env : δ) :
    src.announce hooks (view env)
      = ((src.announce watch.toHooks env).1, view (src.announce watch.toHooks env).2) := by
  rw [announce, announce, hview.prompt, hview.flush]
  split_ifs
  · rcases watch.prompt src.last env with ⟨_ | failure, env'⟩
    · exact hview.flush env'
    · rfl
  · rfl

lemma attempt_shown (stream : Stream) (src : Source) (env : δ) :
    src.attempt hooks stream (view env) = (src.attemptSeen watch stream env).shown view := by
  rw [attemptSeen, attempt, announce_shown hview src env]
  rcases src.announce watch.toHooks env with ⟨_ | failure, env'⟩
  · cases hlines : stream.lines with
    | cons line rest => simp only [Attempt.shown, hview.read]
    | nil => cases hfailure : stream.failure <;> simp only [Attempt.shown, hview.read]
  · rfl

lemma readOn_shown (stream : Stream) (src : Source) (env : δ)
    (hqueue : ∀ env, readQueued hooks src.queue src (view env)
      = shown view (readQueuedSeen watch src.queue src env)) :
    src.readOn hooks stream (view env) = shown view (src.readOnSeen watch stream env) := by
  rw [readOn, readOnSeen, attempt_shown hview stream src env]
  rcases src.attemptSeen watch stream env with _ | _ | env'
  · rfl
  · rfl
  · exact hqueue env'

lemma readQueued_shown (queue : List Stream) (src : Source) (env : δ) :
    readQueued hooks queue src (view env) = shown view (readQueuedSeen watch queue src env) := by
  induction queue generalizing src env with
  | nil => rfl
  | cons stream queue ih =>
      rw [readQueued_cons, readQueuedSeen_cons]
      exact readOn_shown hview stream _ env (ih _)

lemma readLine_shown (src : Source) (env : δ) :
    src.readLine hooks (view env) = shown view (src.readLineSeen watch env) := by
  cases hcurrent : src.current with
  | none =>
      rw [readLine_of_none hcurrent, readLineSeen, hcurrent]
      exact readQueued_shown hview src.queue src env
  | some stream =>
      rw [readLine_of_some hcurrent, readLineSeen, hcurrent]
      exact readOn_shown hview stream src env (readQueued_shown hview src.queue src)

/-- **A source that is watched does what it does otherwise.** -/
lemma nextWord_shown (src : Source) (env : δ) :
    src.nextWord hooks (view env) = shown view (src.nextWordSeen watch env) := by
  rw [nextWord, nextWordSeen]
  split_ifs
  · rw [readLine_shown hview src env]
    rcases src.readLineSeen watch env with ⟨_ | failure, src', env'⟩ <;> rfl
  · rfl

end Shown

/-! ## The schedule -/

/-- What an attempt to read from a stream is expected to put into the log.  The stream may be the
last one. -/
def round (isLast : Bool) (name : Text) (line : Option Text) : List Event :=
  (if isLast then [.prompt] else []) ++ [.flush, .read name line]

/-- The attempts to read from a stream: one for each line, and one at its end. -/
def rounds (isLast : Bool) (name : Text) (lines : List Text) : List Event :=
  (lines.map some ++ [none]).flatMap (round isLast name)

/-- The attempts to read from streams one after the other. -/
def scheduleIn : List Stream → List Event
  | [] => []
  | stream :: queue => rounds queue.isEmpty stream.name stream.lines ++ scheduleIn queue

/-- The attempts that are still to be made. -/
def schedule (src : Source) : List Event :=
  match src.current with
  | none => scheduleIn src.queue
  | some stream => rounds src.queue.isEmpty stream.name stream.lines ++ scheduleIn src.queue

/-- The prompt is on, and none of the streams that are left fails. -/
structure Flawless (src : Source) : Prop where
  prompting : src.prompting = true
  failure : ∀ stream ∈ src.current.toList ++ src.queue, stream.failure = none

/-- What a read has left in the log was expected, and what is still to come is on the schedule.  If
the read failed, nothing is. -/
structure Logged {α : Type} (failed : α → Prop) (expected : List Event)
    (r : α × Source × ε × List Event) : Prop where
  log : r.2.2.2 ++ r.2.1.schedule = expected
  flawless : r.2.1.Flawless
  ended : failed r.1 → r.2.1.schedule = []

section Log

variable (hquiet : hooks.Quiet)
include hquiet

lemma log_announce (hprompting : src.prompting = true) (env : ε) (log : List Event) :
    ∃ env', src.announce (logging hooks).toHooks (env, log)
      = (none, env', log ++ (if src.queue.isEmpty then [.prompt] else []) ++ [.flush]) := by
  have hflush :
      ∀ env log, (logging hooks).flush (env, log) = (none, (hooks.flush env).2, log ++ [.flush]) :=
    fun env log => Prod.ext (hquiet.flush env) rfl
  have hprompt : (logging hooks).prompt src.last (env, log)
      = (none, (hooks.prompt src.last env).2, log ++ [.prompt]) :=
      Prod.ext (hquiet.prompt src.last env) rfl
  rw [announce, hprompting]
  cases src.queue.isEmpty with
  | true => exact ⟨(hooks.flush (hooks.prompt src.last env).2).2, by simp [hprompt, hflush]⟩
  | false => exact ⟨(hooks.flush env).2, by simp [hflush]⟩

/-- One attempt, and those that follow if the stream is at its end. -/
lemma log_attemptSeen (hprompting : src.prompting = true) (hfailure : stream.failure = none)
    (env : ε) (log : List Event) :
    ∃ env', src.attemptSeen (logging hooks) stream (env, log) =
      match stream.lines with
      | line :: rest =>
          .line (src.take stream line rest)
            (env', log ++ round src.queue.isEmpty stream.name (some line))
      | [] => .ended (env', log ++ round src.queue.isEmpty stream.name none) := by
  obtain ⟨env', hannounce⟩ := log_announce hquiet hprompting env log
  refine ⟨env', ?_⟩
  rw [attemptSeen, hannounce]
  cases hlines : stream.lines with
  | cons line rest => simp [logging, round, hlines]
  | nil => simp [logging, round, hlines, hfailure]

lemma logged_readOn (hcurrent : src.current = some stream) (h : src.Flawless) (env : ε)
    (log : List Event) (hqueue : ∀ env log, Logged (·.isSome) (log ++ scheduleIn src.queue)
      (readQueuedSeen (logging hooks) src.queue src (env, log))) :
    Logged (·.isSome) (log ++ src.schedule) (src.readOnSeen (logging hooks) stream (env, log)) := by
  have hfailure : stream.failure = none := h.failure stream (by simp [hcurrent])
  have hschedule :
      src.schedule = rounds src.queue.isEmpty stream.name stream.lines ++ scheduleIn src.queue := by
    rw [schedule, hcurrent]
  obtain ⟨env', hattempt⟩ := log_attemptSeen hquiet h.prompting hfailure env log
  rw [readOnSeen, hattempt, hschedule]
  cases hlines : stream.lines with
  | cons line rest =>
      refine ⟨?_, ⟨h.prompting, ?_⟩, by simp⟩
      · simp [schedule, take, rounds]
      · intro other hother
        rcases List.mem_cons.mp hother with rfl | hother
        · exact hfailure
        · exact h.failure other (List.mem_append_right _ hother)
  | nil =>
      have hrest := hqueue env' (log ++ round src.queue.isEmpty stream.name none)
      rw [List.append_assoc] at hrest
      rw [show rounds src.queue.isEmpty stream.name []
        = round src.queue.isEmpty stream.name none by simp [rounds]]
      exact hrest

lemma logged_readQueued (queue : List Stream) (src : Source) (hprompting : src.prompting = true)
    (hfailure : ∀ stream ∈ queue, stream.failure = none) (env : ε) (log : List Event) :
    Logged (·.isSome) (log ++ scheduleIn queue)
      (readQueuedSeen (logging hooks) queue src (env, log)) := by
  induction queue generalizing src env log with
  | nil => exact ⟨rfl, ⟨hprompting, by simp [readQueuedSeen]⟩, fun _ => rfl⟩
  | cons stream queue ih =>
      rw [readQueuedSeen_cons]
      have hbegun : (src.begun stream queue).Flawless := ⟨hprompting, hfailure⟩
      exact logged_readOn hquiet rfl hbegun env log (ih _ hprompting fun other hother =>
        hfailure other (List.mem_cons_of_mem _ hother))

lemma logged_readLine (h : src.Flawless) (env : ε) (log : List Event) :
    Logged (·.isSome) (log ++ src.schedule) (src.readLineSeen (logging hooks) (env, log)) := by
  have hqueue := logged_readQueued hquiet src.queue src h.prompting fun stream hstream =>
    h.failure stream (List.mem_append_right _ hstream)
  cases hcurrent : src.current with
  | none =>
      rw [readLineSeen, hcurrent, schedule, hcurrent]
      exact hqueue env log
  | some stream =>
      rw [readLineSeen, hcurrent]
      exact logged_readOn hquiet hcurrent h env log hqueue

/-- **What is put into the log was on the schedule.** -/
lemma logged_nextWord (h : src.Flawless) (env : ε) (log : List Event) :
    Logged (∀ item, · ≠ .ok item) (log ++ src.schedule)
      (src.nextWordSeen (logging hooks) (env, log)) := by
  rw [nextWordSeen]
  have hpop :
      ∀ {src : Source}, src.Flawless → src.popWord.2.Flawless ∧
        src.popWord.2.schedule = src.schedule := by
    intro src h
    rw [popWord_eq]
    exact ⟨⟨h.prompting, h.failure⟩, rfl⟩
  split_ifs
  · have hline := logged_readLine hquiet h env log
    rcases hread : src.readLineSeen (logging hooks) (env, log) with ⟨_ | failure, src', env', log'⟩
    · rw [hread] at hline
      exact ⟨by rw [(hpop hline.flawless).2]; exact hline.log, (hpop hline.flawless).1,
        fun h => absurd rfl (h _)⟩
    · rw [hread] at hline
      exact ⟨hline.log, hline.flawless, fun _ => hline.ended rfl⟩
  · exact ⟨by rw [(hpop h).2], (hpop h).1, fun h => absurd rfl (h _)⟩

/-- **Any number of words keep to the schedule.** -/
lemma logged_iterate (k : ℕ) (s : Source × ε × List Event) (h : s.1.Flawless) :
    ((listen hooks)^[k] s).1.Flawless ∧
      ((listen hooks)^[k] s).2.2 ++ ((listen hooks)^[k] s).1.schedule = s.2.2 ++ s.1.schedule := by
  induction k with
  | zero => exact ⟨h, rfl⟩
  | succ k ih =>
      rw [Function.iterate_succ_apply']
      generalize (listen hooks)^[k] s = s' at ih
      have hnext := logged_nextWord hquiet ih.1 s'.2.1 s'.2.2
      exact ⟨hnext.flawless, hnext.log.trans ih.2⟩

end Log

/-! ## Until the end -/

lemma listen_iterate {view : ε × List Event → δ} {hooks' : Hooks δ}
    (hview : (logging hooks).Shows view hooks') (k : ℕ) (s : Source × ε × List Event) :
    (((listen hooks)^[k] s).1, view ((listen hooks)^[k] s).2)
      = (respond hooks' .word)^[k] (s.1, view s.2) := by
  induction k with
  | zero => rfl
  | succ k ih =>
      rw [Function.iterate_succ_apply', Function.iterate_succ_apply', ← ih]
      generalize (listen hooks)^[k] s = s'
      exact (congrArg Prod.snd (nextWord_shown hview s'.1 s'.2)).symm

/-- **The schedule is kept to the end.**  Once the source has given all that was coming, the next
request finds that there is nothing more, and by then everything on the schedule has happened. -/
lemma log_at_end (hquiet : hooks.Quiet) {s : Source × ε × List Event} (h : s.1.Flawless) :
    ((listen hooks)^[s.1.coming.length + 1] s).2.2 = s.2.2 ++ s.1.schedule := by
  obtain ⟨hflawless, hlog⟩ := logged_iterate hquiet s.1.coming.length s h
  have hcoming := (coming_iterate hquiet s.1.coming.length (s.1, s.2.1)).1
  rw [← listen_iterate (shows_hooks hooks), List.drop_length] at hcoming
  rw [Function.iterate_succ_apply']
  generalize (listen hooks)^[s.1.coming.length] s = s' at hflawless hlog hcoming
  have hnext := logged_nextWord hquiet hflawless s'.2.1 s'.2.2
  have hended : (listen hooks s').1.schedule = [] := by
    refine hnext.ended fun item hok => ?_
    have hfails := nextWord_head hquiet s'.1 s'.2.1
    rw [hcoming, nextWord_shown (shows_hooks hooks) s'.1 s'.2] at hfails
    cases hfails.symm.trans hok
  have hlast : (listen hooks s').2.2 ++ (listen hooks s').1.schedule = s.2.2 ++ s.1.schedule :=
    hnext.log.trans hlog
  rwa [hended, List.append_nil] at hlast

lemma reached_of_flawless {inputs : List Input} (h : ∀ input ∈ inputs, input.failure = none) :
    Input.reached inputs = inputs := by
  induction inputs with
  | nil => rfl
  | cons input inputs ih =>
      rw [Input.reached, h input List.mem_cons_self,
        ih fun input hinput => h input (List.mem_cons_of_mem _ hinput)]
      rfl

end Source

/-- The text is the line without the carriage returns and line breaks at its end. -/
def Text.Bare (line text : Text) : Prop :=
  ∃ breaks, line = text ++ breaks ∧ (∀ b ∈ breaks, b = carriageReturn ∨ b = newline) ∧
    ∀ b, text.getLast? = some b → b ≠ carriageReturn ∧ b ≠ newline

lemma Text.bare_trimLineEnd (line : Text) : line.Bare line.trimLineEnd := by
  set drop : UInt8 → Bool := fun b => b == carriageReturn || b == newline with hdrop
  refine ⟨(line.reverse.takeWhile drop).reverse, ?_, ?_, ?_⟩
  · rw [trimLineEnd, trimEnd, ← List.reverse_append, List.takeWhile_append_dropWhile,
      List.reverse_reverse]
  · intro b hb
    have := List.all_eq_true.mp List.all_takeWhile b (List.mem_reverse.mp hb)
    simpa [hdrop] using this
  · intro b hb
    rw [trimLineEnd, trimEnd, List.getLast?_reverse] at hb
    have := List.head?_dropWhile_not drop line.reverse
    rw [hb] at this
    simpa [hdrop] using this

namespace Source

variable {ε : Type} {hooks : Hooks ε}

/-- **Hooks and reads keep to the schedule, and places and texts to the words.**  Until a source is
at its end, each stream is asked once for every line and once more, each time right after a flush,
which follows a prompt if the stream is the last one.  No hook is called at another time.  Whatever
the source gives, it tells the place and the text of the line that it is from. -/
theorem attempts_and_places (hquiet : hooks.Quiet) (inputs : List Input)
    (hends : ∀ input ∈ inputs, input.failure = none) (env : ε) :
    let start : Source := { queue := inputs.map Input.stream, prompting := true }
    let entries := inputs.flatMap fun input => numbered input.name 0 input.text.lines
    let replies :=
      entries.flatMap fun entry => (items entry.line.words).map fun item => (item, entry)
    (∀ src env log, nextWord hooks src env
      = shown Prod.fst (nextWordSeen (logging hooks) src (env, log))) ∧
    ((listen hooks)^[replies.length + 1] (start, env, [])).2.2
      = scheduleIn (inputs.map Input.stream) ∧
    ((respond (logging hooks).toHooks .word)^[replies.length + 1] (start, env, [])).2.2
      = (scheduleIn (inputs.map Input.stream)).filter Event.isCall ∧
    ∀ k, let s := (respond hooks .word)^[k] (start, env)
      let r := s.1.nextWord hooks s.2
      match replies[k]? with
      | some (item, entry) => r.1 = .ok item ∧ r.2.1.last = entry.place ∧ entry.line.Bare r.2.1.text
      | none => r.1 = .error .endOfInput := by
  intro start entries replies
  have hentries : start.entries = entries := by
    have h := entriesIn_inputs inputs
    rw [reached_of_flawless hends] at h
    exact h
  have hending : start.ending = .endOfInput := by
    have h := endingIn_inputs inputs
    rw [Input.ending, List.findSome?_eq_none_iff.mpr hends] at h
    exact h
  have hcoming :
      start.coming = replies.map fun reply =>
        ⟨reply.1, reply.2.place, reply.2.line.trimLineEnd⟩ := by
    rw [coming_of_none rfl, hentries, List.map_flatMap]
    simp only [List.map_map]
    rfl
  have hstart : start.Flawless := ⟨rfl, by simpa [start, Input.stream] using hends⟩
  have hlog :
      ((listen hooks)^[replies.length + 1] (start, env, [])).2.2
        = scheduleIn (inputs.map Input.stream) := by
    have h := log_at_end hquiet (s := (start, env, [])) hstart
    rw [hcoming, List.length_map] at h
    exact h
  refine ⟨fun src env log => nextWord_shown (shows_hooks hooks) src (env, log), hlog, ?_, ?_⟩
  · have hcalls := listen_iterate (shows_calls hooks) (replies.length + 1) (start, env, [])
    rw [← hlog]
    exact (congrArg (·.2.2) hcalls).symm
  · intro k s r
    obtain ⟨hdrop, hend⟩ := coming_iterate hquiet k (start, env)
    have hnext := nextWord_head hquiet s.1 s.2
    rw [hdrop, List.head?_drop, hend, hcoming, hending, List.getElem?_map] at hnext
    cases hreply : replies[k]? with
    | none => rw [hreply] at hnext; exact hnext
    | some reply =>
        rw [hreply] at hnext
        refine ⟨hnext.1, hnext.2.1, ?_⟩
        rw [hnext.2.2]
        exact reply.2.line.bare_trimLineEnd

/-- Two streams, the second of which is prompted for: the log of seven requests, and the place of
the second word. -/
theorem attempts_and_places_of_two :
    let start : Source :=
      { queue := [⟨utf8 "one", (utf8 "a b\r\n\n").lines, none⟩,
          ⟨utf8 "two", (utf8 "c").lines, none⟩]
        prompting := true }
    let second := (respond Hooks.silent .word)^[1] (start, ())
    Hooks.silent.Quiet ∧ ((listen Hooks.silent)^[7] (start, (), [])).2.2
        = [.flush, .read (utf8 "one") (some (utf8 "a b\r\n")), .flush,
          .read (utf8 "one") (some (utf8 "\n")), .flush, .read (utf8 "one") none, .prompt, .flush,
          .read (utf8 "two") (some (utf8 "c")), .prompt, .flush, .read (utf8 "two") none] ∧
      (second.1.nextWord Hooks.silent second.2).2.1.last = ⟨utf8 "one", 1⟩ := by
  obtain ⟨-, hlog, -, hplaces⟩ := attempts_and_places Hooks.quiet_silent
    [⟨utf8 "one", utf8 "a b\r\n\n", none⟩, ⟨utf8 "two", utf8 "c", none⟩] (by simp) ()
  exact ⟨Hooks.quiet_silent, hlog, (hplaces 1).2.1⟩

end Source

end ColonMachine
