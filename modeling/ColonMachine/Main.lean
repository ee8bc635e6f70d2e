import ColonMachine.Command.Run

/-!
# The command line

Collects what a command finds around it, runs it, and writes what came of it.  The files and the
standard input are read whole before the session begins, and a positive time limit does not pass.
-/

namespace ColonMachine.Command.Shell

/-- The bytes as a text. -/
def textOfBytes (bytes : ByteArray) : Text := bytes.data.toList

/-- Reads on from the standard input until its end, or until that fails. -/
partial def readToEnd (stdin : IO.FS.Stream) (soFar : ByteArray) : IO Stream := do
  try
    let piece ← stdin.read 65536
    if piece.isEmpty then return .ofText [] (textOfBytes soFar)
    else readToEnd stdin (soFar ++ piece)
  catch problem =>
    return .failing [] (textOfBytes soFar) (FileTree.trouble "read" (utf8 "/dev/stdin")
      (utf8 (toString problem)))

/-- A text as a string. -/
def stringOfText (t : Text) : String := String.fromUTF8? ⟨t.toArray⟩ |>.getD ""

/-- What became of reading a file: its content, or the verb and the reason of a failure. -/
def attemptRead (path : Text) : IO (Except (String × Text) Text) := do
  try
    return .ok (textOfBytes (← IO.FS.readBinFile (stringOfText path)))
  catch problem =>
    match problem with
    | .noFileOrDirectory .. => return .error ("open", FileTree.Problem.wording .missing)
    | .inappropriateType _ code _ =>
      if code == 21 then return .error ("read", utf8 "is a directory")
      else return .error ("open", FileTree.Problem.wording .notDirectory)
    | .permissionDenied .. => return .error ("open", utf8 "permission denied")
    | other => return .error ("open", utf8 (toString other))

/-- The content of a file, as far as it was read before. -/
def contentOf (contents : List (Text × Except (String × Text) Text)) (path : Text) :
    Except Failure Text :=
  match contents.lookup path with
  | some (.ok content) => .ok content
  | some (.error (verb, reason)) => .error (FileTree.trouble verb path reason)
  | none => .error (FileTree.trouble "open" path (FileTree.Problem.wording .missing))

/-- A file opened by its path: a directory can be opened, but fails when it is read. -/
def openOf (contents : List (Text × Except (String × Text) Text)) (path : Text) :
    Except Failure File :=
  match contentOf contents path, contents.lookup path with
  | .ok content, _ => .ok { stream := .ofText path content }
  | .error failure, some (.error ("read", _)) => .ok { stream := .failing path [] failure }
  | .error failure, _ => .error failure

/-- The paths that a command is going to read. -/
def pathsOf (arguments : List Text) : List Text :=
  match Flags.parse arguments with
  | .ok flags => flags.files ++ (if flags.config.isEmpty then [] else [flags.config])
  | .error _ => []

/-- More instructions than any session that ends in a lifetime executes. -/
def plenty : Nat := Nat.pow 2 62

/-- Collects the world of a command with the given arguments. -/
def collect (arguments : List Text) : IO World := do
  let stdin ← IO.getStdin
  let stdout ← IO.getStdout
  let contents ← (pathsOf arguments).mapM fun path => do return (path, ← attemptRead path)
  return {
    openFile := fun _ => openOf contents
    contentAt := contentOf contents
    input := ← readToEnd stdin .empty
    fromTerminal := ← stdin.isTty
    toTerminal := ← stdout.isTty
    clock := utf8 "<nil>" }

/-- What is said of several failures: how many there are, and a line for each. -/
def listing (failures : List Failure) : Text :=
  let count := if failures.length == 1 then utf8 "1 error"
    else Text.ofNat failures.length ++ utf8 " errors"
  count ++ utf8 " occurred:" ++
    failures.flatMap (fun failure => utf8 "\n\t* " ++ failure.wording) ++ utf8 "\n\n"

/-- Writes what came of a command, and gives its exit code. -/
def conclude (world : World) (report : Report) : IO UInt32 := do
  let stdout ← IO.getStdout
  let stderr ← IO.getStderr
  if let .memory pieces := report.output then
    stdout.write ⟨pieces.reverse.flatten.toArray⟩
  stderr.write ⟨report.log.toArray⟩
  match report.problem with
  | none => return 0
  | some problem =>
    let line := utf8 "ERROR: " ++ problem.message listing
    let line := if world.toTerminal then red line else line
    stderr.write ⟨(line ++ [Text.newline]).toArray⟩
    return 1

/-- Carries out the command. -/
def carryOut (arguments : List Text) : IO UInt32 := do
  let world ← collect arguments
  conclude world (run plenty world arguments)

end ColonMachine.Command.Shell

/-- Runs the command. -/
def main (args : List String) : IO UInt32 :=
  ColonMachine.Command.Shell.carryOut (args.map ColonMachine.utf8)
