import ColonMachine.Input.Stream
import ColonMachine.Text.Separator

/-!
# The word source

A source reads words, one line at a time, through a queue of streams.  Each line gives its words
and then an end-of-line mark, so that whoever reads can tell when the line is used up; only the
next request after the mark reads another line.

Reading a line may have to wait for somebody to type it.  Therefore a source calls two hooks
before it reads: `prompt`, which is called only for the last stream of the queue and only while
prompting is on, and `flush`, which is always called.  Hooks act on an environment of any type
`ε`, and may fail, in which case no line is read.

* `nextWord` is the next word, or `none` for the mark at the end of a line.
* `discard` drops what is left of the current line and leaves its mark.
* `pending` bounds how much can still be read.  Every word read makes it smaller by two and every
  mark by one, while `discard` adds at most one (`pending_nextWord`, `pending_discard`).
-/

namespace ColonMachine

/-- What a source does before it reads a line. -/
structure Hooks (ε : Type) where
  /-- Called for the last stream of the queue, with the location reached so far. -/
  prompt : Location → ε → Option Failure × ε
  /-- Called before every read, after `prompt`. -/
  flush : ε → Option Failure × ε

/-- A queue of streams, read word by word. -/
structure Source where
  /-- The streams not yet begun. -/
  queue : List Stream := []
  /-- The stream being read. -/
  current : Option Stream := none
  /-- Where the line read last stands. -/
  last : Location := {}
  /-- The line read last, without its line break. -/
  text : Text := []
  /-- The words left of the current line, before its mark; `none` after the mark. -/
  buffer : Option (List Text) := none
  /-- Whether the prompt hook is called. -/
  prompting : Bool := false

namespace Source

/-- The words left of the current line. -/
def buffered (src : Source) : List Text := src.buffer.getD []

/-- Whether the current line is used up, its mark included. -/
def isEmpty (src : Source) : Bool := src.buffer.isNone

/-- Drops what is left of the current line, and leaves its mark. -/
def discard (src : Source) : Source := { src with buffer := some [] }

/-- Adds a stream at the end of the queue. -/
def feed (src : Source) (stream : Stream) : Source := { src with queue := src.queue ++ [stream] }

/-! ## Reading a line -/

variable {ε : Type}

/-- How an attempt to read a line from the current stream went. -/
inductive Attempt (ε : Type) where
  /-- A line was read. -/
  | line (src : Source) (env : ε)
  /-- A hook or the stream failed. -/
  | failed (failure : Failure) (env : ε)
  /-- The stream is at its end. -/
  | ended (env : ε)

/-- Calls the hooks that come before a read. -/
def announce (hooks : Hooks ε) (src : Source) (env : ε) : Option Failure × ε :=
  if src.prompting && src.queue.isEmpty then
    match hooks.prompt src.last env with
    | (some failure, env) => (some failure, env)
    | (none, env) => hooks.flush env
  else hooks.flush env

/-- The source after taking `line` from its current stream, of which `rest` is left. -/
def take (src : Source) (stream : Stream) (line : Text) (rest : List Text) : Source :=
  { src with
    current := some { stream with lines := rest }
    last := { src.last with line := src.last.line + 1 }
    text := line.trimLineEnd
    buffer := some line.words }

/-- Tries to read a line from `stream`, the current stream of `src`. -/
def attempt (hooks : Hooks ε) (stream : Stream) (src : Source) (env : ε) : Attempt ε :=
  match announce hooks src env with
  | (some failure, env) => .failed failure env
  | (none, env) =>
    match stream.lines with
    | line :: rest => .line (src.take stream line rest) env
    | [] =>
      match stream.failure with
      | some failure => .failed failure env
      | none => .ended env

/-- Reads a line from the first of the queued streams that still has one. -/
def readQueued (hooks : Hooks ε) : (queue : List Stream) → Source → ε → Option Failure × Source × ε
  | [], src, env => (some .endOfInput, { src with queue := [], current := none }, env)
  | stream :: queue, src, env =>
    let src := { src with queue, current := some stream, last := { name := stream.name } }
    match src.attempt hooks stream env with
    | .line src env => (none, src, env)
    | .failed failure env => (some failure, src, env)
    | .ended env => readQueued hooks queue src env

/-- Reads a line, from the current stream or, after its end, from those behind it. -/
def readLine (hooks : Hooks ε) (src : Source) (env : ε) : Option Failure × Source × ε :=
  match src.current with
  | none => readQueued hooks src.queue src env
  | some stream =>
    match src.attempt hooks stream env with
    | .line src env => (none, src, env)
    | .failed failure env => (some failure, src, env)
    | .ended env => readQueued hooks src.queue src env

/-! ## Reading a word -/

/-- Takes the next word, or the mark, off the current line.  The words of a line are never empty,
which is what keeps a word and the mark apart: no source that has been read from holds an empty one
(`Source.Tidy`). -/
def popWord (src : Source) : Option Text × Source :=
  match src.buffer with
  | some (word :: words) => (some word, { src with buffer := some words })
  | some [] | none => (none, { src with buffer := none })

/-- The next word, or `none` at the end of a line; reads a line if the last one is used up. -/
def nextWord (hooks : Hooks ε) (src : Source) (env : ε) :
    Except Failure (Option Text) × Source × ε :=
  if src.isEmpty then
    match src.readLine hooks env with
    | (some failure, src, env) => (.error failure, src, env)
    | (none, src, env) => (.ok src.popWord.1, src.popWord.2, env)
  else (.ok src.popWord.1, src.popWord.2, env)

/-! ## How much is left -/

/-- The weight of the current line: two for each word left, and one for the mark. -/
def bufferWeight : Option (List Text) → Nat
  | none => 0
  | some words => 2 * words.length + 1

/-- The weight of a line that is not yet read, one more than once it is current. -/
def lineWeight (line : Text) : Nat := 2 * line.words.length + 2

/-- The weight of the lines left in a stream. -/
def streamWeight (stream : Stream) : Nat := stream.lines.foldr (lineWeight · + ·) 0

/-- The weight of the streams that have not been begun. -/
def queueWeight (queue : List Stream) : Nat := queue.foldr (streamWeight · + ·) 0

/-- The weight of everything that can still be read. -/
def pending (src : Source) : Nat :=
  bufferWeight src.buffer + (src.current.map streamWeight).getD 0 + queueWeight src.queue

theorem pending_discard (src : Source) : src.discard.pending ≤ src.pending + 1 := by
  unfold discard pending
  cases src.buffer <;> simp [bufferWeight] <;> omega

theorem pending_attempt {hooks : Hooks ε} {stream : Stream} {src src' : Source} {env env' : ε}
    (hcurrent : src.current = some stream) (hbuffer : src.buffer = none)
    (h : src.attempt hooks stream env = .line src' env') : src'.pending < src.pending := by
  unfold attempt at h
  split at h
  · cases h
  · split at h
    · next line rest hlines =>
      cases h
      simp [pending, take, hcurrent, hbuffer, bufferWeight, streamWeight, hlines, lineWeight]
    · split at h <;> cases h

theorem pending_readQueued {hooks : Hooks ε} {queue : List Stream} {src src' : Source}
    {env env' : ε} (hbuffer : src.buffer = none)
    (h : readQueued hooks queue src env = (none, src', env')) :
    src'.pending < queueWeight queue := by
  induction queue generalizing src env with
  | nil => simp [readQueued] at h
  | cons stream queue ih =>
    unfold readQueued at h
    simp only at h
    split at h
    · next heq =>
      simp only [Prod.mk.injEq, true_and] at h
      obtain ⟨rfl, rfl⟩ := h
      have := pending_attempt rfl (by simpa using hbuffer) heq
      simpa [pending, hbuffer, bufferWeight, queueWeight] using this
    · simp at h
    · next heq =>
      have := ih (by simpa using hbuffer) h
      simp only [queueWeight, List.foldr_cons] at this ⊢
      omega

theorem pending_readLine {hooks : Hooks ε} {src src' : Source} {env env' : ε}
    (hbuffer : src.buffer = none) (h : src.readLine hooks env = (none, src', env')) :
    src'.pending < src.pending := by
  unfold readLine at h
  split at h
  · exact Nat.lt_of_lt_of_le (pending_readQueued hbuffer h) (Nat.le_add_left ..)
  · next stream hcurrent =>
    split at h
    · next heq =>
      simp only [Prod.mk.injEq, true_and] at h
      obtain ⟨rfl, rfl⟩ := h
      exact pending_attempt hcurrent hbuffer heq
    · simp at h
    · exact Nat.lt_of_lt_of_le (pending_readQueued hbuffer h) (Nat.le_add_left ..)

theorem pending_popWord {src : Source} (h : src.buffer.isSome) :
    src.popWord.2.pending + (if src.popWord.1.isSome then 2 else 1) ≤ src.pending := by
  unfold popWord
  split
  · next hb =>
    simp only [pending, hb, bufferWeight, List.length_cons, Option.isSome_some, if_true]
    omega
  · next hb =>
    simp only [pending, hb, bufferWeight, List.length_nil, Option.isSome_none, Bool.false_eq_true,
      if_false]
    omega
  · next hb => simp [hb] at h

theorem buffer_attempt {hooks : Hooks ε} {stream : Stream} {src src' : Source} {env env' : ε}
    (h : src.attempt hooks stream env = .line src' env') : src'.buffer.isSome := by
  unfold attempt at h
  split at h
  · cases h
  · split at h
    · cases h; rfl
    · split at h <;> cases h

theorem buffer_readQueued {hooks : Hooks ε} {queue : List Stream} {src src' : Source}
    {env env' : ε} (h : readQueued hooks queue src env = (none, src', env')) :
    src'.buffer.isSome := by
  induction queue generalizing src env with
  | nil => simp [readQueued] at h
  | cons stream queue ih =>
    unfold readQueued at h
    simp only at h
    split at h
    · next heq =>
      simp only [Prod.mk.injEq, true_and] at h
      obtain ⟨rfl, rfl⟩ := h
      exact buffer_attempt heq
    · simp at h
    · exact ih h

/-- A line that was read is current. -/
theorem buffer_readLine {hooks : Hooks ε} {src src' : Source} {env env' : ε}
    (h : src.readLine hooks env = (none, src', env')) : src'.buffer.isSome := by
  unfold readLine at h
  split at h
  · exact buffer_readQueued h
  · split at h
    · next heq =>
      simp only [Prod.mk.injEq, true_and] at h
      obtain ⟨rfl, rfl⟩ := h
      exact buffer_attempt heq
    · simp at h
    · exact buffer_readQueued h

/-- A word read uses up a weight of two, and the mark at the end of a line a weight of one. -/
theorem pending_nextWord {hooks : Hooks ε} {src src' : Source} {env env' : ε}
    {word : Option Text} (h : src.nextWord hooks env = (.ok word, src', env')) :
    src'.pending + (if word.isSome then 2 else 1) ≤ src.pending := by
  unfold nextWord at h
  split at h
  · next hempty =>
    have hbuffer : src.buffer = none := by simpa [isEmpty] using hempty
    split at h
    · simp at h
    · next heq =>
      simp only [Prod.mk.injEq, Except.ok.injEq] at h
      obtain ⟨rfl, rfl, rfl⟩ := h
      have h1 := pending_readLine hbuffer heq
      have h2 := pending_popWord (buffer_readLine heq)
      omega
  · next hempty =>
    simp only [Prod.mk.injEq, Except.ok.injEq] at h
    obtain ⟨rfl, rfl, rfl⟩ := h
    exact pending_popWord (by simpa [isEmpty, Option.isSome_iff_ne_none] using hempty)

end Source

end ColonMachine
