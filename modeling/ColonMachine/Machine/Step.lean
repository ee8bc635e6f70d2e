import ColonMachine.Machine.Interpreter

/-!
# Executing code

The counter stands on the last byte that was fetched, so fetching moves it on first.  `step`
executes one instruction.  A fault that comes out of it is handled by `recover`: it is reported,
all calls are abandoned, and the machine stands before its top level loop again.

`exec` repeats this as long as the machine is running, and after every instruction asks the
context whether to go on.  How many instructions it may execute is given by a fuel, so that it is
a total function; `run` is a whole run of a session, with its ending.
-/

namespace ColonMachine

/-- What decides whether a run is called off. -/
inductive Context where
  /-- Never. -/
  | background
  /-- At the `n`-th question, or at the first if `n` is 0, and at every later one. -/
  | endingAt (n : Nat) (cause : Failure)

namespace Context

/-- Asks whether to go on: the reason not to, and the context for the next question. -/
def ask : Context → Option Failure × Context
  | background => (none, background)
  | endingAt n cause =>
    if n ≤ 1 then (some cause, endingAt n cause) else (none, endingAt (n - 1) cause)

end Context

namespace Machine

/-! ## One instruction -/

/-- The byte of code at a position. -/
def codeAt? (f : Function) : Int → Option Code
  | .ofNat i => f.code[i]?
  | .negSucc _ => none

/-- A position as a signed number of 64 bits. -/
def wrapped (position : Int) : Int := position.bmod (Nat.pow 2 64)

/-- Moves the counter on and gives the byte it then stands on.  A counter that leaves the code is
kept in 64 bits, so that the largest one is followed by the smallest. -/
def fetch : Act Code := do
  let e := (← get).engine
  let position := e.pc + 1
  match (e.dict.get? e.fn).bind (codeAt? · position) with
  | some code =>
    modifyEngine fun e => { e with pc := position }
    return code
  | none =>
    modifyEngine fun e => { e with pc := wrapped position }
    raise (.outOfBounds e.fn (wrapped position))

/-- Reads and dispatches one word without prompting for it. -/
def readQuietly : Act Unit := do
  let prompting := (← get).input.prompting
  modify fun m => { m with input := { m.input with prompting := false } }
  let outcome ← attempt read
  modify fun m => { m with input := { m.input with prompting } }
  match outcome with
  | .ok _ => pure ()
  | .error what => raise what

/-- Executes an instruction whose opcode has been fetched. -/
def execute : Opcode → Act Unit
  | .call => do call (Code.callee (← fetch))
  | .jump => do
    let offset ← fetch
    modifyEngine fun e => { e with pc := e.pc + offset.toInt - 1 }
  | .prompt => prompt
  | .push => do push (← fetch).toInt32
  | .read => readQuietly
  | .ret => ret

/-- Executes the next instruction. -/
def step : Act Unit := do
  let code ← fetch
  note (utf8 "exec") fun m =>
    m.engine.dict.nameOf m.engine.fn ++ utf8 "@" ++ Text.ofInt m.engine.pc ++ utf8 " " ++
      code.name ++ utf8 " -- r:" ++ Text.ofNat m.engine.frames.length ++ utf8 " s:" ++ m.stackText
  match Opcode.ofCode? code with
  | some op => execute op
  | none => raise (.badOpcode code (← get).engine.pc)

/-- Reports a fault, drops the rest of the line, and goes back to the top level loop. -/
def recover (what : Fault) : Act Unit := do
  note (utf8 "!") fun m =>
    utf8 "fault: " ++ what.message ++ utf8 " at " ++ m.input.last.text ++ utf8 " " ++
      m.input.text.quote
  report (utf8 "Error: " ++ what.message)
  modifyEngine fun e =>
    { e with
      frames := []
      fn := bootId
      pc := -1
      mode := if e.defining.isNone then .execute else e.mode }

/-! ## Many instructions -/

/-- Executes one instruction, handles its fault, and asks whether to go on. -/
def tick (context : Context) : Act Context := do
  match ← attempt step with
  | .ok () => pure ()
  | .error what => recover what
  let (cause, context) := context.ask
  haltIf cause
  return context

/-- Executes at most `fuel` instructions, as long as the machine is running.  The result tells
whether it has stopped. -/
def exec : (fuel : Nat) → Context → Act Bool
  | 0, _ => fun m => .ok (!m.engine.running) m
  | fuel + 1, context => fun m =>
    if m.engine.running then
      match tick context m with
      | .ok context m => exec fuel context m
      | .error interrupt m => .error interrupt m
    else .ok true m

/-- Indents the messages of the trace, or no longer does. -/
def indent (on : Bool) (m : Machine) : Machine :=
  { m with trace := { m.trace with indented := on } }

/-- Executes code with the trace indented. -/
def execIndented (fuel : Nat) (context : Context) : Act Bool := fun m =>
  match exec fuel context (m.indent true) with
  | .ok stopped m => .ok stopped (m.indent false)
  | .error interrupt m => .error interrupt (m.indent false)

/-- Executes code until the machine stops, and flushes what was written. -/
def runOut (fuel : Nat) (context : Context) : Act Bool := do
  let stopped ← execIndented fuel context
  if stopped then haltIf (← speak Console.flush)
  return stopped

/-- What came of a run. -/
inductive Outcome where
  /-- The fuel was used up before the run came to an end. -/
  | unfinished
  /-- The run ended, normally if there is no failure. -/
  | ended (failure : Option Failure)
  deriving Repr, DecidableEq

/-- The failure that a run which was broken off is answered for: the reason of a halt, or the
panic or abandonment itself, which is noted. -/
def settle (failure : Failure) (m : Machine) : Outcome × Machine :=
  let failure? := failure.halt?.getD (some failure)
  match failure? with
  | none => (.ended none, m)
  | some failure =>
    let m := if failure.isPanic || failure.isAbandoned then
        m.noted (utf8 "!") fun _ => failure.wording
      else m
    if failure.chain.contains .endOfInput then (.ended none, m) else (.ended (some failure), m)

/-- Runs the machine until it exits or its input is used up, which both are a normal end, or
until something fails. -/
def run (fuel : Nat) (context : Context) (m : Machine) : Outcome × Machine :=
  match runOut fuel context m with
  | .ok true m => (.ended none, m)
  | .ok false m => (.unfinished, m)
  | .error interrupt m =>
    match interrupt.ending.guarded (utf8 "VM") with
    | none => (.ended none, m)
    | some failure => settle failure m

/-- Closes what is to be closed, newest first; gives what was closed and the failures to close it,
both in that order. -/
def close (m : Machine) : List Closer × List Failure × Machine :=
  let closed := m.closers.reverse
  (closed, closed.filterMap (·.failure), { m with closers := [] })

end Machine

end ColonMachine
