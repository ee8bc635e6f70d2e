import ColonMachine.Dictionary
import ColonMachine.Input.Source
import ColonMachine.Output.Route

/-!
# The machine

A machine is a session: an engine that executes code, the source of its words, the console it
writes to, and a trace of what it does.

* The **engine** has the dictionary, the data stack, the return stack and the place in the code.
* The **console** has the outlets, the prompts and the manner of diagnostics.
* The **trace** records messages, if it is on.

An **action** (`Act`) changes the machine and gives a result, or is interrupted: by a fault, by a
halt of the session, by a panic of a native, or because its thread was abandoned.  Whatever
happens, the machine is left as it was at that moment.
-/

namespace ColonMachine

/-! ## Engine -/

/-- What becomes of the words read. -/
inductive Mode where
  /-- They are run. -/
  | execute
  /-- They are compiled into the open definition. -/
  | compile
  deriving Repr, DecidableEq

/-- The name of a mode. -/
def Mode.name : Mode → Text
  | execute => utf8 "execute"
  | compile => utf8 "compile"

/-- Where to go on after a call. -/
structure Frame where
  /-- The calling function. -/
  fn : FuncId
  /-- The position in its code. -/
  pc : Int
  deriving Repr, DecidableEq

/-- The data stack, top first. -/
abbrev Stack := List Int32

/-- The part of a machine that executes code. -/
structure Engine where
  /-- All functions. -/
  dict : Dictionary := {}
  /-- The data stack, top first. -/
  stack : Stack := []
  /-- The return stack, innermost call first. -/
  frames : List Frame := []
  /-- The largest depth of the return stack; not limited unless positive. -/
  limit : Int := 4096
  /-- The function being executed. -/
  fn : FuncId := 0
  /-- The position of the last byte fetched; -1 before the first. -/
  pc : Int := -1
  /-- Whether the machine goes on. -/
  running : Bool := true
  /-- What becomes of the words read. -/
  mode : Mode := .execute
  /-- The function under definition. -/
  defining : Option FuncId := none

/-! ## Console -/

/-- The prompts of the two modes. -/
structure Prompts where
  /-- Shown while words are run. -/
  execute : Text := utf8 "\n> "
  /-- Shown while words are compiled. -/
  compile : Text := utf8 "...> "
  deriving DecidableEq

/-- No prompts at all. -/
def Prompts.off : Prompts := { execute := [], compile := [] }

/-- The prompt of a mode. -/
def Prompts.of (p : Prompts) : Mode → Text
  | .execute => p.execute
  | .compile => p.compile

/-- The part of a machine that speaks. -/
structure Console where
  /-- All outlets ever used, oldest first. -/
  outlets : Outlets := [.discard]
  /-- Where output goes. -/
  route : Route := .single 0
  /-- What is flushed before a line is read. -/
  settled : Route := .single 0
  /-- The prompts. -/
  prompts : Prompts := {}
  /-- How the message of a diagnostic is dressed up. -/
  style : Text → Text := id
  /-- Whether the last output was a whole diagnostic line. -/
  reported : Bool := false
  /-- Every piece offered to the output so far, newest first. -/
  offered : List Text := []

/-! ## Trace -/

/-- A message of the trace, with the place in the input it was noted at. -/
structure Entry where
  /-- The message. -/
  message : Text
  /-- The place in the input, or nothing. -/
  location : Text
  deriving Repr, DecidableEq

/-- A record of what the machine does. -/
structure Trace where
  /-- The log that messages go to, told apart from others by a number; none while the trace is
  off. -/
  log : Option Nat := none
  /-- Whether messages are indented, as they are during a run. -/
  indented : Bool := false
  /-- The width of the widest mark so far. -/
  markWidth : Nat := 0
  /-- The messages, newest first. -/
  entries : List Entry := []

/-- Whether messages are recorded. -/
def Trace.enabled (t : Trace) : Bool := t.log.isSome

/-! ## Machine -/

/-- Something to be closed when the session is closed, and what closing it fails with. -/
structure Closer where
  /-- Tells closers apart. -/
  id : Nat
  /-- What closing fails with. -/
  failure : Option Failure := none
  deriving Repr, DecidableEq

/-- A session. -/
structure Machine where
  /-- What executes code. -/
  engine : Engine := {}
  /-- Where words come from. -/
  input : Source := {}
  /-- What speaks. -/
  console : Console := {}
  /-- The record of what happened. -/
  trace : Trace := {}
  /-- What is to be closed at the end, oldest first. -/
  closers : List Closer := []

/-- Why an action was not completed. -/
inductive Interrupt where
  /-- A fault of the program. -/
  | fault (what : Fault)
  /-- The session was halted. -/
  | halt (cause : Option Failure)
  /-- A native panicked. -/
  | panic (payload : Payload)
  /-- A native abandoned its thread. -/
  | abandon
  deriving Repr, DecidableEq

/-- How a computation that was interrupted ended. -/
def Interrupt.ending : Interrupt → Ending
  | fault what => .returned (some (.fault what))
  | halt none => .panicked (.failure .halted)
  | halt (some cause) => .panicked (.failure (.haltedBy cause))
  | panic payload => .panicked payload
  | abandon => .abandoned

/-- Something a machine does. -/
abbrev Act (α : Type) := EStateM Interrupt Machine α

/-- What came of an action, and the machine it left. -/
abbrev Result (α : Type) := EStateM.Result Interrupt Machine α

namespace Result

variable {α : Type}

/-- The machine an action left. -/
def machine : Result α → Machine
  | .ok _ m => m
  | .error _ m => m

end Result

/-- Raises a fault. -/
def raise {α : Type} (what : Fault) : Act α := throw (.fault what)

/-- Does `act`, and gives a fault it raises as a value.  Any other interrupt goes on. -/
def attempt {α : Type} (act : Act α) : Act (Except Fault α) := fun m =>
  match act m with
  | .ok a m => .ok (.ok a) m
  | .error (.fault what) m => .ok (.error what) m
  | .error interrupt m => .error interrupt m

namespace Machine

/-- The place of the line read last, or nothing while no named stream has been read. -/
def location (m : Machine) : Text :=
  if m.input.last.name.isEmpty then [] else m.input.last.text

/-- The data stack as a list of numbers, bottom first. -/
def stackText (m : Machine) : Text := Text.ofInts (m.engine.stack.reverse.map Int32.toInt)

end Machine

end ColonMachine
