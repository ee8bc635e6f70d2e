import ColonMachine.Machine.Console
import ColonMachine.Text.Quoted

/-!
# The dialogue

The actions by which a machine converses: noting what it does, halting, reading a word, writing,
and reporting a diagnostic.  They are the only ones that touch the source, the console or the
trace, and none of them touches the engine.

A failure of the source or of the console halts the session.  A halt first flushes what was
written before; if there was no failure so far, one of that flush becomes the reason.
-/

namespace ColonMachine.Machine

variable {α : Type}

/-- The machine with a message noted, if the trace is on. -/
def noted (mark : Text) (message : Machine → Text) (m : Machine) : Machine :=
  if m.trace.enabled then { m with trace := m.trace.record mark (message m) m.location } else m

/-- Notes a message under a mark. -/
def note (mark : Text) (message : Machine → Text) : Act Unit := modify (noted mark message)

/-- Lets the console do something. -/
def speak (act : Console → Option Failure × Console) : Act (Option Failure) := fun m =>
  let (failure, console) := act m.console
  .ok failure { m with console }

/-- Halts the session. -/
def halt (cause : Option Failure) : Act α := do
  let late ← speak Console.flush
  let cause := cause <|> late
  note (utf8 "#") fun _ => utf8 "halt: " ++ (cause.map Failure.wording).getD (utf8 "<nil>")
  throw (.halt cause)

/-- Halts the session if there is a failure. -/
def haltIf : Option Failure → Act Unit
  | none => pure ()
  | some failure => halt (some failure)

/-- Writes a text. -/
def write (t : Text) : Act Unit := do haltIf (← speak (Console.write t))

/-- Prints a text, as one piece. -/
def print (t : Text) : Act Unit := do haltIf (← speak (Console.print t))

/-- Shows the prompt of the current mode. -/
def showPrompt : Act Unit := do
  let m ← get
  haltIf (← speak (Console.showPrompt m.engine.mode))

/-- Takes the next word from the source. -/
def pull : Act (Except Failure (Option Text)) := fun m =>
  let (word, input, console) := m.input.nextWord (Console.hooks m.engine.mode) m.console
  .ok word { m with input, console }

/-- What becomes of the word taken from the source: a failure halts, a word is noted. -/
def accept : Except Failure (Option Text) → Act (Option Text)
  | .error failure => halt (some failure)
  | .ok none => pure none
  | .ok (some word) => do
    note (utf8 ">") fun m => word.quote ++ utf8 " from " ++ m.input.last.text
    return some word

/-- Reads the next word, or `none` at the end of a line. -/
def nextWord : Act (Option Text) := do accept (← pull)

/-- Drops what is left of the current line. -/
def discard : Act Unit := modify fun m => { m with input := m.input.discard }

/-- Reports a diagnostic on a line of its own, and drops what is left of the current line. -/
def report (message : Text) : Act Unit := do
  note (utf8 "!") fun m =>
    message ++ utf8 " (discarding " ++ Text.quoteAll m.input.buffered ++ utf8 ")"
  write ((← get).console.style message)
  write [Text.newline]
  modify fun m => { m with console := { m.console with reported := true } }
  discard

end ColonMachine.Machine
