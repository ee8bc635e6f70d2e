import ColonMachine.Text.Decimal

/-!
# What can go wrong

Two kinds of trouble are kept apart.

A **fault** is a mistake of the program being run: too few operands, a division by zero, a bad
instruction.  The machine reports it and carries on with the next line.

A **failure** ends whatever was going on: a stream or a sink that refuses, a run that was called
off, or a computation that broke off.  Failures nest, because a failure may be what a halt, a
panic or a note is about; `cause?` goes one step inwards and `chain` all the way.

The wording of each lives in `Fault.message` and `Failure.message` and nowhere else.
-/

namespace ColonMachine

/-- A mistake of the program being run. -/
inductive Fault where
  /-- An operation needs more operands than the data stack has. -/
  | stackUnderflow
  /-- The divisor is zero. -/
  | divisionByZero
  /-- The return stack is at its limit. -/
  | returnOverflow
  /-- A return with no call to return from. -/
  | returnUnderflow
  /-- A word is to be compiled and no definition is open. -/
  | notDefining
  /-- The byte at a counter is no instruction. -/
  | badOpcode (code : Int8) (counter : Int)
  /-- The counter has left the code of the function. -/
  | outOfBounds (fn : Int) (counter : Int)
  /-- A call of an id that names no function. -/
  | undefinedCall (id : Int)
  /-- A fault that a native function words itself. -/
  | custom (text : Text)
  deriving Repr, DecidableEq

/-- The wording of a fault. -/
def Fault.message : Fault → Text
  | stackUnderflow => utf8 "stack underflow"
  | divisionByZero => utf8 "division by zero"
  | returnOverflow => utf8 "return stack overflow"
  | returnUnderflow => utf8 "return stack underflow"
  | notDefining => utf8 "compile mode without a definition"
  | badOpcode code counter =>
    utf8 "invalid opcode " ++ Text.ofInt code.toInt ++ utf8 " at instruction " ++ Text.ofInt counter
  | outOfBounds fn counter =>
    utf8 "program counter " ++ Text.ofInt counter ++ utf8 " out of bounds in function #" ++
      Text.ofInt fn
  | undefinedCall id => utf8 "call to undefined function #" ++ Text.ofInt id
  | custom text => text

/-- Why something came to an end. -/
inductive Failure where
  /-- A fault that nobody handled. -/
  | fault (what : Fault)
  /-- There is no more input. -/
  | endOfInput
  /-- The run was called off. -/
  | canceled
  /-- The time limit has passed. -/
  | deadlineExceeded
  /-- A sink took fewer bytes than it was given, without saying why. -/
  | shortWrite
  /-- Any other failure, in its own words. -/
  | message (text : Text)
  /-- The session was halted, for no reason. -/
  | halted
  /-- The session was halted for a reason. -/
  | haltedBy (cause : Failure)
  /-- A named computation panicked with a plain value, given by its text. -/
  | panicked (name value : Text)
  /-- A named computation panicked with a failure. -/
  | panickedBy (name : Text) (cause : Failure)
  /-- A named computation was abandoned by its thread. -/
  | abandoned (name : Text)
  /-- A failure with a note in front. -/
  | noted (note : Text) (cause : Failure)
  deriving Repr, DecidableEq

namespace Failure

/-- The front of the message of a panic. -/
def panicLead (name : Text) : Text :=
  if name.isEmpty then utf8 "paniced: " else name ++ utf8 " paniced: "

/-- The wording of a failure. -/
def wording : Failure → Text
  | fault what => what.message
  | endOfInput => utf8 "EOF"
  | canceled => utf8 "context canceled"
  | deadlineExceeded => utf8 "context deadline exceeded"
  | shortWrite => utf8 "short write"
  | message text => text
  | halted => utf8 "halted"
  | haltedBy cause => utf8 "halted: " ++ cause.wording
  | panicked name value => panicLead name ++ value
  | panickedBy name cause => panicLead name ++ cause.wording
  | abandoned name =>
    if name.isEmpty then utf8 "runtime.Goexit called" else name ++ utf8 " called runtime.Goexit"
  | noted note cause => note ++ utf8 ": " ++ cause.wording

/-- The failure directly inside a failure. -/
def cause? : Failure → Option Failure
  | haltedBy cause => some cause
  | panickedBy _ cause => some cause
  | noted _ cause => some cause
  | _ => none

/-- A failure, the failure inside it, and so on. -/
def chain : Failure → List Failure
  | haltedBy cause => haltedBy cause :: cause.chain
  | panickedBy name cause => panickedBy name cause :: cause.chain
  | noted note cause => noted note cause :: cause.chain
  | f => [f]

/-- Whether the failure itself is a panic. -/
def isPanicItself : Failure → Bool
  | panicked .. | panickedBy .. => true
  | _ => false

/-- Whether there is a panic anywhere inside. -/
def isPanic (f : Failure) : Bool := f.chain.any isPanicItself

/-- Whether the failure itself is an abandoned computation. -/
def isAbandonedItself : Failure → Bool
  | abandoned _ => true
  | _ => false

/-- Whether there is an abandoned computation anywhere inside. -/
def isAbandoned (f : Failure) : Bool := f.chain.any isAbandonedItself

/-- The outermost halt inside a failure, with its reason. -/
def halt? (f : Failure) : Option (Option Failure) :=
  f.chain.findSome? fun
    | halted => some none
    | haltedBy cause => some (some cause)
    | _ => none

end Failure

end ColonMachine
