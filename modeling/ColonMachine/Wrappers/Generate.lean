import ColonMachine.Wrappers.Params
import ColonMachine.Output.Device
import ColonMachine.Machine.Step

/-!
# Generated wrappers

For every builder method of a test case, a wrapper is generated: a function that takes the
parameters of the method and gives a function that calls it.  A builder method is a line

    func (vmt vmTestCase) expectWhat(list) vmTestCase ...

or the same with `with` in place of `expect`; all other lines are passed over.  `generate` reads a
whole file and writes the wrappers one by one, the header together with the first.
-/

namespace ColonMachine.Wrappers

/-! ## Builder methods -/

/-- A builder method of the test case. -/
structure Method where
  /-- `expect` or `with`. -/
  base : Text
  /-- The rest of the name. -/
  what : Text
  /-- The parameter list, as it stands. -/
  list : Text
  deriving Repr, DecidableEq

/-- Whether a byte can be part of a name: a letter, a digit or an underscore. -/
def isNameByte (b : UInt8) : Bool :=
  (48 ≤ b && b ≤ 57) || (65 ≤ b && b ≤ 90) || b == 95 || (97 ≤ b && b ≤ 122)

/-- What a builder method begins with. -/
def methodLead : Text := utf8 "func (vmt vmTestCase) "

/-- What follows the parameter list of a builder method. -/
def methodTail : Text := utf8 ") vmTestCase \x7b"

/-- The parameter list, up to the first place after its first byte where it can end. -/
def splitList? : Text → Option Text
  | [] => none
  | b :: rest => (Text.cut? rest methodTail).map fun parts => b :: parts.1

/-- The method whose kind is `base`, given by what follows it on the line. -/
def Method.ofRest? (base rest : Text) : Option Method :=
  let what := rest.takeWhile isNameByte
  match rest.drop what.length with
  | 40 :: after =>
    if what.isEmpty then none else (splitList? after).map fun list => { base, what, list }
  | _ => none

/-- The builder method on a line, if there is one. -/
def Method.ofLine? (line : Text) : Option Method := do
  let rest ← methodLead.isPrefixOf? line
  match (utf8 "expect").isPrefixOf? rest with
  | some after => ofRest? (utf8 "expect") after
  | none => ofRest? (utf8 "with") (← (utf8 "with").isPrefixOf? rest)

/-- The wrapper of a method with the given parameters. -/
def Method.wrapper (m : Method) (params : List Param) : Text :=
  utf8 "func " ++ m.base ++ utf8 "VM" ++ m.what ++ utf8 "(" ++ m.list ++
    utf8 ") func(vmTestCase) vmTestCase \x7b\n" ++
    utf8 "\treturn func(vmt vmTestCase) vmTestCase \x7b\n" ++
    utf8 "\t\treturn vmt." ++ m.base ++ m.what ++ utf8 "(" ++
    Text.join (utf8 ", ") (params.map Param.argument) ++ utf8 ")\n" ++
    utf8 "\t\x7d\n\x7d\n\n"

/-! ## Whole files -/

/-- The header of a generated file: where it comes from, and how it is made if that is known. -/
def header (name : Text) (args : List Text) : Text :=
  utf8 "package main\n\n// @generated from " ++ name ++ utf8 "\n\n" ++
    (if args.length < 2 then []
    else utf8 "//go:generate go run scripts/gen_vm_expects.go -- " ++
      Text.join [Text.space] args ++ utf8 "\n\n")

/-- Lines must be shorter than this. -/
def lineLimit : Nat := 65536

/-- A line without its line break, and without a carriage return before it; `none` if the line is
too long. -/
def scanLine? (line : Text) : Option Text :=
  let content := if line.getLast? == some Text.newline then line.dropLast else line
  if lineLimit ≤ content.length then none
  else if content.getLast? == some Text.carriageReturn then some content.dropLast
  else some content

/-- Why generating stopped. -/
inductive Stop where
  /-- Something failed. -/
  | failed (failure : Failure)
  /-- A parameter was blank. -/
  | blankParam
  deriving Repr, DecidableEq

/-- The wording of a stop. -/
def Stop.wording : Stop → Text
  | failed failure => failure.wording
  | blankParam => utf8 "runtime error: index out of range [0] with length 0"

/-- Writes some text to the device, if there is any. -/
def put (t : Text) (d : Device) : Option Stop × Device :=
  if t.isEmpty then (none, d)
  else
    let (written, d) := d.write t
    match written.failure with
    | some failure => (some (.failed failure), d)
    | none =>
      if written.count == t.length then (none, d) else (some (.failed .shortWrite), d)

/-- Writes `waiting` and the wrappers of all builder methods among the lines, one at a time, asking
the context whether to go on after each. -/
def generateFrom : (lines : List Text) → (waiting : Text) → Context → Device → Option Stop × Device
  | [], waiting, _, d => put waiting d
  | line :: lines, waiting, context, d =>
    match scanLine? line with
    | none => (some (.failed (.message (utf8 "bufio.Scanner: token too long"))), d)
    | some content =>
      match Method.ofLine? content with
      | none => generateFrom lines waiting context d
      | some method =>
        match Param.parse? method.list with
        | none => (some .blankParam, d)
        | some params =>
          match put (waiting ++ method.wrapper params) d with
          | (some stop, d) => (some stop, d)
          | (none, d) =>
            match context.ask with
            | (some failure, _) => (some (.failed failure), d)
            | (none, context) => generateFrom lines [] context d

/-- Generates the wrappers for a file of the given name and text. -/
def generate (name text : Text) (args : List Text) (context : Context) (d : Device) :
    Option Stop × Device :=
  generateFrom text.lines (header name args) context d

end ColonMachine.Wrappers
