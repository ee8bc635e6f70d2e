import ColonMachine.Config.Duration
import ColonMachine.Text.Decimal

/-!
# Flags

The arguments of the command are flags and files, in any order.  A flag begins with two dashes; its
value follows after `=` or, unless the flag is a switch, as the next argument.  After the argument
`--` there are only files, and a lone `-` is a file as well.

`Flags.parse` reads the arguments from left to right and stops at the first that is wrong.  A flag
that is given again takes its last value.
-/

namespace ColonMachine

/-- The arguments of the command. -/
structure Flags where
  /-- The time limit in nanoseconds, if given. -/
  timeout : Option Int := none
  /-- Whether to write a trace. -/
  trace : Bool := false
  /-- Whether to read the prelude, if given. -/
  prelude : Option Bool := none
  /-- Whether to show prompts, if given. -/
  prompt : Option Bool := none
  /-- The path of the configuration; empty for none. -/
  config : Text := []
  /-- The limit of the return stack, if given. -/
  limit : Option Int := none
  /-- Whether to explain the command instead of running it. -/
  help : Bool := false
  /-- The files, in order. -/
  files : List Text := []
  deriving Repr, DecidableEq

namespace Flags

/-- The flags there are. -/
inductive Flag where
  | timeout
  | trace
  | prelude
  | prompt
  | config
  | limit
  | help
  deriving Repr, DecidableEq

namespace Flag

/-- The name of a flag. -/
def name : Flag → String
  | timeout => "timeout"
  | trace => "trace"
  | prelude => "prelude"
  | prompt => "prompt"
  | config => "config"
  | limit => "return-stack-limit"
  | help => "help"

/-- All flags. -/
def all : List Flag := [timeout, trace, prelude, prompt, config, limit, help]

/-- The flag of a name. -/
def ofName? (t : Text) : Option Flag := all.find? fun flag => utf8 flag.name == t

/-- Whether a flag is a switch, which is on if it has no value. -/
def isSwitch : Flag → Bool
  | trace | prelude | prompt | help => true
  | timeout | config | limit => false

/-- A flag as it is written, with its short form if it has one. -/
def shown : Flag → Text
  | help => utf8 "-h, --help"
  | flag => utf8 "--" ++ utf8 flag.name

end Flag

/-! ## Problems -/

/-- Why a value does not suit a flag. -/
inductive ValueProblem where
  /-- It is not a duration. -/
  | duration (problem : Duration.Problem)
  /-- It is not an integer. -/
  | integer (fault : Text.NumberFault)
  /-- It is not a truth value. -/
  | boolean
  deriving Repr, DecidableEq

/-- What is said about a value that does not suit. -/
def ValueProblem.message (value : Text) : ValueProblem → Text
  | duration problem => problem.message value
  | integer .malformed =>
    utf8 "strconv.ParseInt: parsing " ++ value.quote ++ utf8 ": invalid syntax"
  | integer .outOfRange =>
    utf8 "strconv.ParseInt: parsing " ++ value.quote ++ utf8 ": value out of range"
  | boolean => utf8 "strconv.ParseBool: parsing " ++ value.quote ++ utf8 ": invalid syntax"

/-- Why arguments cannot be read. -/
inductive Problem where
  /-- An argument begins with dashes and goes on in no way that is known. -/
  | malformed (argument : Text)
  /-- There is no flag of the name. -/
  | unknown (name : Text)
  /-- There is no short flag of the letter that begins the rest of an argument. -/
  | unknownShort (letter : UInt8) (rest : Text)
  /-- The value of a flag is missing. -/
  | missingValue (flag : Flag)
  /-- The value of a flag does not suit it. -/
  | badValue (flag : Flag) (value : Text) (problem : ValueProblem)
  deriving Repr, DecidableEq

/-- What is said about arguments that cannot be read. -/
def Problem.message : Problem → Text
  | malformed argument => utf8 "bad flag syntax: " ++ argument
  | unknown name => utf8 "unknown flag: --" ++ name
  | unknownShort letter rest =>
    utf8 "unknown shorthand flag: " ++ Text.quoteChar letter.toNat ++ utf8 " in -" ++ rest
  | missingValue flag => utf8 "flag needs an argument: " ++ utf8 "--" ++ utf8 flag.name
  | badValue flag value problem =>
    utf8 "invalid argument " ++ value.quote ++ utf8 " for " ++ flag.shown.quote ++
      utf8 " flag: " ++ problem.message value

/-! ## Values -/

/-- The truth values that may be written. -/
def readBool? (t : Text) : Option Bool :=
  if ["1", "t", "T", "TRUE", "true", "True"].any (utf8 · == t) then some true
  else if ["0", "f", "F", "FALSE", "false", "False"].any (utf8 · == t) then some false
  else none

/-- A truth value. -/
def bool (t : Text) : Except ValueProblem Bool :=
  match readBool? t with
  | some b => .ok b
  | none => .error .boolean

/-- An integer of 64 bits. -/
def integer (t : Text) : Except ValueProblem Int :=
  (Text.readInt .marked 64 t).mapError .integer

/-- A duration. -/
def duration (t : Text) : Except ValueProblem Int := (Duration.parse t).mapError .duration

/-- Takes the value of a flag, if it suits. -/
def setValue (flags : Flags) (value : Text) : Flag → Except ValueProblem Flags
  | .timeout => do return { flags with timeout := some (← duration value) }
  | .trace => do return { flags with trace := ← bool value }
  | .prelude => do return { flags with prelude := some (← bool value) }
  | .prompt => do return { flags with prompt := some (← bool value) }
  | .config => return { flags with config := value }
  | .limit => do return { flags with limit := some (← integer value) }
  | .help => do return { flags with help := ← bool value }

/-- Sets a flag. -/
def set (flags : Flags) (flag : Flag) (value : Text) : Except Problem Flags :=
  (flags.setValue value flag).mapError (.badValue flag value)

/-! ## Arguments -/

/-- The dash. -/
def dash : UInt8 := 45

/-- The sign between a flag and its value. -/
def equals : UInt8 := 61

/-- What a switch is set to if it has no value. -/
def switchedOn : Text := utf8 "true"

/-- Reads the letters after a single dash.  The only one there is asks for help; the letters
of a test flag are passed over. -/
def short (flags : Flags) : Text → Except Problem Flags
  | [] => .ok flags
  | letter :: rest =>
    if (utf8 "test.").isPrefixOf (letter :: rest) then .ok flags
    else if letter == 104 then
      match rest with
      | 61 :: b :: value => flags.set .help (b :: value)
      | _ =>
        match flags.set .help switchedOn with
        | .ok flags => short flags rest
        | .error problem => .error problem
    else .error (.unknownShort letter (letter :: rest))

/-- Whether something can be the name of a flag with its value. -/
def isFlagBody : Text → Bool
  | [] => false
  | b :: _ => b != dash && b != equals

/-- The name and the value, if there is one, of a flag without its dashes. -/
def splitBody (body : Text) : Text × Option Text :=
  match body.cut? [equals] with
  | some (name, value) => (name, some value)
  | none => (body, none)

/-- Whether an argument is a file and not a flag. -/
def isFile : Text → Bool
  | 45 :: _ :: _ => false
  | _ => true

/-- Reads arguments on top of those read before. -/
def parseFrom (flags : Flags) : List Text → Except Problem Flags
  | [] => .ok flags
  | argument :: rest =>
    if isFile argument then
      parseFrom { flags with files := flags.files ++ [argument] } rest
    else match argument with
      | [45, 45] => .ok { flags with files := flags.files ++ rest }
      | 45 :: 45 :: body =>
        if !isFlagBody body then .error (.malformed argument)
        else
          let (name, value) := splitBody body
          match Flag.ofName? name with
          | none => .error (.unknown name)
          | some flag =>
            match value, flag.isSwitch, rest with
            | some value, _, rest => do parseFrom (← flags.set flag value) rest
            | none, true, rest => do parseFrom (← flags.set flag switchedOn) rest
            | none, false, value :: rest => do parseFrom (← flags.set flag value) rest
            | none, false, [] => .error (.missingValue flag)
      | _ :: letters => do parseFrom (← flags.short letters) rest
      | [] => .ok flags
termination_by arguments => arguments.length
decreasing_by all_goals (simp only [List.length_cons]; omega)

/-- Reads the arguments of the command. -/
def parse (arguments : List Text) : Except Problem Flags := parseFrom {} arguments

end Flags

end ColonMachine
