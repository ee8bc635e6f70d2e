import ColonMachine.Toml.Document
import ColonMachine.Config.Duration
import ColonMachine.Machine.Basic

/-!
# The configuration of a session

A configuration is read from a settings file with two tables, `prompt` and `session`.  Names are
compared without regard to case, and names that are not known are passed over, but a known name
must have a value of the right kind.

A configuration is loaded only if its time limit can be read, so that `nanoseconds` of a loaded
configuration is that limit.
-/

namespace ColonMachine

/-- The configuration of a session, as far as it is given. -/
structure Config where
  /-- The prompt for words to execute. -/
  execute : Option Text := none
  /-- The prompt for words to compile. -/
  compile : Option Text := none
  /-- Whether the prelude is read first. -/
  prelude : Bool := false
  /-- The time limit, as it is written; empty for none. -/
  timeout : Text := []
  /-- The limit of the return stack; 0 for the usual one. -/
  limit : Int := 0
  deriving Repr, DecidableEq

namespace Config

/-! ## Reading the tree -/

/-- The small letter of a character, as far as names of settings are concerned. -/
def foldRune (r : Rune) : Text :=
  let c := r.code
  if 65 ≤ c && c ≤ 90 then [(c + 32).toUInt8]
  else if c == 0x17F then [115]
  else if c == 0x212A then [107]
  else r.bytes

/-- Whether a key means a known name. -/
def means (name : String) (key : Text) : Bool := key.runes.flatMap foldRune == utf8 name

/-- Takes over an entry of the table of prompts. -/
def takePrompt (config : Config) (entry : Text × Toml.Node) : Option Config :=
  let (key, node) := entry
  if means "execute" key then
    match node with
    | .string text => some { config with execute := some text }
    | _ => none
  else if means "compile" key then
    match node with
    | .string text => some { config with compile := some text }
    | _ => none
  else some config

/-- Takes over an entry of the table for the session. -/
def takeSession (config : Config) (entry : Text × Toml.Node) : Option Config :=
  let (key, node) := entry
  if means "prelude" key then
    match node with
    | .boolean prelude => some { config with prelude }
    | _ => none
  else if means "timeout" key then
    match node with
    | .string timeout => some { config with timeout }
    | _ => none
  else if means "return-stack-limit" key then
    match node with
    | .integer limit => some { config with limit }
    | _ => none
  else some config

/-- Takes over an entry of the whole file. -/
def take (config : Config) (entry : Text × Toml.Node) : Option Config :=
  let (key, node) := entry
  if means "prompt" key then
    match node with
    | .table entries => entries.foldlM takePrompt config
    | _ => none
  else if means "session" key then
    match node with
    | .table entries => entries.foldlM takeSession config
    | _ => none
  else some config

/-- Reads a configuration. -/
def parse? (t : Text) : Option Config := do (← Toml.read? t).foldlM take {}

/-! ## What it says -/

/-- The prompts, where the usual ones stand in for those not given. -/
def prompts (config : Config) : Prompts :=
  let usual : Prompts := {}
  ⟨config.execute.getD usual.execute, config.compile.getD usual.compile⟩

/-- The time limit in nanoseconds, 0 if there is none. -/
def nanoseconds (config : Config) : Except Duration.Problem Int :=
  if config.timeout.isEmpty then .ok 0 else Duration.parse config.timeout

/-! ## Loading -/

/-- Why a configuration cannot be loaded from a path. -/
inductive Problem where
  /-- The file cannot be read. -/
  | unreadable (path : Text) (failure : Failure)
  /-- The file is not a configuration. -/
  | malformed (path : Text)
  /-- The time limit is not a duration. -/
  | badTimeout (path timeout : Text) (problem : Duration.Problem)
  deriving Repr, DecidableEq

/-- What is said about a configuration that cannot be loaded. -/
def Problem.message : Problem → Text
  | unreadable path failure => utf8 "cannot read " ++ path ++ utf8 ": " ++ failure.wording
  | malformed path => utf8 "parse error in " ++ path
  | badTimeout path timeout problem =>
    utf8 "invalid session timeout in " ++ path ++ utf8 ": " ++ problem.message timeout

/-- Loads the configuration from a path, given what reading the file there gives. -/
def load (path : Text) (content : Except Failure Text) : Except Problem Config := do
  match content with
  | .error failure => throw (.unreadable path failure)
  | .ok text =>
    match parse? text with
    | none => throw (.malformed path)
    | some config =>
      match config.nanoseconds with
      | .error problem => throw (.badTimeout path config.timeout problem)
      | .ok _ => return config

end Config

end ColonMachine
