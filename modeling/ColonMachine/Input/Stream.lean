import ColonMachine.Failure

/-!
# Input streams

A stream is a named text that is read line by line.  After its last line it either is at its end
or fails.

That it then goes on failing with the same failure is an assumption on what is read from: whoever
reads a stream keeps no failure of it, and asks again on every further read.
-/

namespace ColonMachine

/-- A named input that is read line by line. -/
structure Stream where
  /-- The name by which locations refer to the stream. -/
  name : Text
  /-- The lines not yet read, each with the line break that ends it. -/
  lines : List Text
  /-- What every read past the last line fails with; `none` if the stream simply ends there. -/
  failure : Option Failure := none

/-- The stream of a text, which ends after it. -/
def Stream.ofText (name text : Text) : Stream := { name, lines := text.lines }

/-- The stream of a text, where reading on fails. -/
def Stream.failing (name text : Text) (failure : Failure) : Stream :=
  { name, lines := text.lines, failure := some failure }

/-- A place in the input: the name of a stream and the number of a line, from 1. -/
structure Location where
  /-- The name of the stream. -/
  name : Text := []
  /-- The number of the line; 0 before the first one. -/
  line : Nat := 0
  deriving Repr, DecidableEq

/-- A location as it is written. -/
def Location.text (loc : Location) : Text := loc.name ++ utf8 ":" ++ Text.ofNat loc.line

end ColonMachine
