import ColonMachine.Failure

/-!
# Guarded computations

A computation may return, with or without a failure, or it may break off: by a panic that carries
a value, or because its thread was abandoned.  A guard has a name and turns every ending into an
ordinary result, so that nothing breaks off past it.
-/

namespace ColonMachine

/-- The value a panic carries. -/
inductive Payload where
  /-- A plain value, by its text. -/
  | value (text : Text)
  /-- A failure. -/
  | failure (f : Failure)
  deriving Repr, DecidableEq

/-- How a computation came to its end. -/
inductive Ending where
  /-- It returned, perhaps with a failure. -/
  | returned (failure : Option Failure)
  /-- It panicked. -/
  | panicked (payload : Payload)
  /-- Its thread was abandoned. -/
  | abandoned
  deriving Repr, DecidableEq

/-- What a guard called `name` makes of an ending. -/
def Ending.guarded (name : Text) : Ending → Option Failure
  | returned failure => failure
  | panicked (.value text) => some (.panicked name text)
  | panicked (.failure f) => some (.panickedBy name f)
  | abandoned => some (.abandoned name)

/-- What divides the message of a panic from its stack trace, when both are shown. -/
def Failure.traceMark : Text := utf8 "\nPanic stack: "

/-- The message of a failure shown with its stack trace, up to the trace, and whether there is
one.  Only a panic that nothing else is wrapped around shows a trace. -/
def Failure.headline (f : Failure) : Text × Bool :=
  let shown := if f.isPanicItself then f.wording ++ Failure.traceMark else f.wording
  match shown.cut? Failure.traceMark with
  | some (head, _) => (head, true)
  | none => (shown, false)

end ColonMachine
