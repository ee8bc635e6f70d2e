import ColonMachine.Command.Flags
import ColonMachine.Command.Inputs
import ColonMachine.Config.Basic
import ColonMachine.Log.Record
import ColonMachine.Machine.Settings

/-!
# The command

The command runs one session: it reads the prelude if asked to, then the files of its arguments,
then the standard input.  Flags win over the configuration, and the configuration over the usual
settings.

`Command.run` does all that for a given `World`, and gives a `Report` of what was written, how it
ended, and what happened to the files.
-/

namespace ColonMachine

/-- What a command finds around it. -/
structure World where
  /-- What opening the file of a name gives, for the file at a position of the arguments. -/
  openFile : (position : Nat) → (name : Text) → Except Failure File
  /-- What reading the file of a name gives. -/
  contentAt : Text → Except Failure Text
  /-- The standard input, whose name does not matter. -/
  input : Stream
  /-- Where the output goes. -/
  output : Outlet := .memory []
  /-- Whether the input comes from a terminal. -/
  fromTerminal : Bool := false
  /-- Whether the output goes to a terminal. -/
  toTerminal : Bool := false
  /-- The time of day, as the trace shows it. -/
  clock : Text
  /-- At which question of the session a time limit of so many nanoseconds is found to have passed;
  `none` if the session is over before. -/
  expiry : Int → Option Nat := fun _ => none

/-- The world of a tree of files, where no time passes. -/
def World.ofTree (tree : FileTree) (input clock : Text) : World where
  openFile _ := tree.openFile
  contentAt := tree.contentAt
  input := .ofText [] input
  clock := clock

namespace Command

/-- Why a command fails. -/
inductive Problem where
  /-- Its arguments cannot be read. -/
  | flags (problem : Flags.Problem)
  /-- Its configuration cannot be loaded. -/
  | config (problem : Config.Problem)
  /-- A file cannot be opened, or the run failed. -/
  | failed (failure : Failure)
  /-- The run did not fail, but not all files could be closed.  The failures stand as they came. -/
  | unclosed (failures : List Failure)
  deriving Repr, DecidableEq

/-- What is said about a command that fails, if `listing` is said of several failures. -/
def Problem.message (listing : List Failure → Text) : Problem → Text
  | flags problem => problem.message
  | config problem => problem.message
  | failed failure => failure.wording
  | unclosed failures => listing failures

/-- What came of a command. -/
structure Report where
  /-- What the output became. -/
  output : Outlet
  /-- What was written as trace. -/
  log : Text := []
  /-- Why it failed. -/
  problem : Option Problem := none
  /-- What happened to the input files. -/
  events : List FileEvent := []
  /-- Whether the session came to an end. -/
  finished : Bool := true

/-! ## Settings -/

/-- The name of the standard input. -/
def inputName : Text := utf8 "<stdin>"

/-- A text in red. -/
def red (t : Text) : Text := utf8 "\x1b[31m" ++ t ++ utf8 "\x1b[0m"

/-- Whether the prelude is read. -/
def wantsPrelude (flags : Flags) (config : Config) : Bool := flags.prelude.getD config.prelude

/-- Whether prompts are shown: unless told otherwise, if there is somebody to answer them. -/
def wantsPrompts (flags : Flags) (world : World) : Bool :=
  flags.prompt.getD (world.fromTerminal && world.toTerminal)

/-- The limit of the return stack. -/
def limit (flags : Flags) (config : Config) : Int :=
  let usual : Engine := {}
  flags.limit.getD (if config.limit == 0 then usual.limit else config.limit)

/-- The time limit in nanoseconds; 0 for none. -/
def nanoseconds (flags : Flags) (config : Config) : Int :=
  flags.timeout.getD (config.nanoseconds.toOption.getD 0)

/-- The context of a session with a time limit.  One that is negative has passed from the start. -/
def context (world : World) (nanoseconds : Int) : Context :=
  if nanoseconds < 0 then .endingAt 1 .deadlineExceeded
  else if nanoseconds == 0 then .background
  else
    match world.expiry nanoseconds with
    | some question => .endingAt question .deadlineExceeded
    | none => .background

/-- The setting that queues the file at a position. -/
def fileSetting (file : File) (position : Nat) : Setting :=
  .input file.stream (some { id := position, failure := file.closing })

/-- The settings of the session. -/
def settings (world : World) (flags : Flags) (config : Config) (files : List File) :
    List Setting :=
  (if wantsPrelude flags config then [.prelude] else []) ++
  files.zipIdx.map (fun (file, position) => fileSetting file position) ++
  [.input { world.input with name := inputName } none, .output world.output,
    .limit (limit flags config),
    .prompts (if wantsPrompts flags world then config.prompts else Prompts.off)] ++
  (if world.toTerminal then [.style red] else []) ++
  (if flags.trace then [.trace] else [])

/-! ## Help -/

/-- What the command says about itself. -/
def helpText : Text := utf8
  "weakforth reads whitespace separated words, running them immediately, or
compiling them into new words between \":\" and \";\".

Any files given are read in order before standard input. The session ends
at the end of input, or when the exit word is run.

Usage:
  weakforth [flags] [file...]

Flags:
      --config string            read settings from a TOML file
  -h, --help                     help for weakforth
      --prelude                  define prelude words before reading input
      --prompt                   print prompts before reading each line
      --return-stack-limit int   limit return stack depth (default 4096)
      --timeout duration         specify a time limit
      --trace                    enable trace logging to stderr
"

/-! ## Running -/

/-- The trace of a machine, a line for each message. -/
def logText (clock : Text) (m : Machine) : Text :=
  m.trace.entries.reverse.flatMap fun entry =>
    Log.Record.line clock { message := entry.message, place := entry.location }

/-- Runs the session of a machine and closes it, whatever came of the run.  Failures to close
count only if the run did not fail. -/
def session (fuel : Nat) (world : World) (context : Context) (m : Machine) : Report :=
  let (outcome, m) := m.run fuel context
  let (closed, failures, m) := m.close
  let problem :=
    match outcome with
    | .unfinished => none
    | .ended (some failure) => some (.failed failure)
    | .ended none => if failures.isEmpty then none else some (.unclosed failures)
  { output := m.console.outlets.getLastD .discard
    log := logText world.clock m
    problem
    events := closed.map fun closer => .closed closer.id
    finished := outcome != .unfinished }

/-- The configuration of the session. -/
def loadConfig (world : World) (path : Text) : Except Config.Problem Config :=
  if path.isEmpty then .ok {} else Config.load path (world.contentAt path)

/-- Opens the files and runs the session. -/
def perform (fuel : Nat) (world : World) (context : Context) (flags : Flags) (config : Config) :
    Report :=
  let attempts := flags.files.zipIdx.map fun (name, position) => world.openFile position name
  match openInputs attempts with
  | (.error failure, events) =>
    { output := world.output, problem := some (.failed failure), events }
  | (.ok files, events) =>
    match Machine.create (settings world flags config files) with
    | .error failure => { output := world.output, problem := some (.failed failure), events }
    | .ok m =>
      let report := session fuel world context m
      { report with events := events ++ report.events }

/-- Runs the command, executing at most `fuel` instructions. -/
def run (fuel : Nat) (world : World) (arguments : List Text) : Report :=
  match Flags.parse arguments with
  | .error problem => { output := world.output, problem := some (.flags problem) }
  | .ok flags =>
    if flags.help then { output := (world.output.write .chars helpText).2 }
    else
      match loadConfig world flags.config with
      | .error problem => { output := world.output, problem := some (.config problem) }
      | .ok config =>
        perform fuel world (context world (nanoseconds flags config)) flags config

end Command

end ColonMachine
