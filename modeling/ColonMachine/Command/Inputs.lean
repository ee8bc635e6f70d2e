import ColonMachine.Command.Files

/-!
# Input files

The files named on the command line are opened in order.  If one cannot be opened, those opened
before it are closed again, and no later one is tried.

What happens to the files is kept as a list of events, in which a file is known by its position on
the command line.
-/

namespace ColonMachine

/-- Something that happens to an input file. -/
inductive FileEvent where
  /-- It was opened. -/
  | opened (position : Nat)
  /-- It could not be opened. -/
  | refused (position : Nat)
  /-- It was closed. -/
  | closed (position : Nat)
  deriving Repr, DecidableEq

/-- Opens further files after those already open.  Every attempt is given by what it would give. -/
def openFrom : (opened : List File) → List (Except Failure File) →
    Except Failure (List File) × List FileEvent
  | opened, [] => (.ok opened, [])
  | opened, .ok file :: attempts =>
    let (result, events) := openFrom (opened ++ [file]) attempts
    (result, .opened opened.length :: events)
  | opened, .error failure :: _ =>
    (.error failure, .refused opened.length :: (List.range opened.length).map .closed)

/-- Opens files in order, all or none. -/
def openInputs (attempts : List (Except Failure File)) :
    Except Failure (List File) × List FileEvent :=
  openFrom [] attempts

end ColonMachine
