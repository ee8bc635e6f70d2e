import ColonMachine.Text.Decimal

/-!
# Instructions

Code is a list of signed bytes.  Each instruction is one byte, its opcode, and some opcodes are
followed by one more byte, the operand.  Bytes that are no opcode can still be named, so that any
code can be shown.
-/

namespace ColonMachine

/-- A byte of code. -/
abbrev Code := Int8

/-- The instructions of the machine. -/
inductive Opcode where
  /-- Call the function named by the operand, read as an unsigned byte. -/
  | call
  /-- Jump relative to the operand. -/
  | jump
  /-- Read and run words up to the end of the line. -/
  | prompt
  /-- Push the operand. -/
  | push
  /-- Read and run one word. -/
  | read
  /-- Return to the caller. -/
  | ret
  deriving Repr, DecidableEq

namespace Opcode

/-- The opcode a byte stands for. -/
def ofCode? (code : Code) : Option Opcode :=
  if code = 0 then some call
  else if code = 1 then some jump
  else if code = 2 then some prompt
  else if code = 3 then some push
  else if code = 4 then some read
  else if code = 5 then some ret
  else none

/-- The byte that stands for an opcode. -/
def code : Opcode → Code
  | call => 0
  | jump => 1
  | prompt => 2
  | push => 3
  | read => 4
  | ret => 5

/-- Whether the opcode is followed by an operand. -/
def hasOperand : Opcode → Bool
  | call | jump | push => true
  | prompt | read | ret => false

/-- The name of an opcode. -/
def name : Opcode → Text
  | call => utf8 "call"
  | jump => utf8 "jump"
  | prompt => utf8 "prompt"
  | push => utf8 "pushnum"
  | read => utf8 "read"
  | ret => utf8 "return"

@[simp] theorem ofCode?_code (op : Opcode) : ofCode? op.code = some op := by
  cases op <;> rfl

end Opcode

namespace Code

/-- The name of a byte of code, whether or not it is an opcode. -/
def name (code : Code) : Text :=
  match Opcode.ofCode? code with
  | some op => op.name
  | none => utf8 "op(" ++ Text.ofInt code.toInt ++ utf8 ")"

/-- Whether a byte of code is an opcode followed by an operand. -/
def hasOperand (code : Code) : Bool := ((Opcode.ofCode? code).map Opcode.hasOperand).getD false

/-- The function id that a byte stands for as the operand of a call. -/
def callee (code : Code) : Int := code.toUInt8.toNat

/-- The operand of a call of the function `id`. -/
def ofCallee (id : Int) : Code := Int8.ofInt id

/-- Code as a list of numbers. -/
def listText (code : List Code) : Text := Text.ofInts (code.map Int8.toInt)

end Code

end ColonMachine
