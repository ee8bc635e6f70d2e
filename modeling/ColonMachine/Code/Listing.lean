import ColonMachine.Dictionary

/-!
# Listings

Code is shown as the words it could have been compiled from: a call by the name of its function,
a literal as a number, a return at the very end as `;`.  What has no such form is shown by its
opcode.

`Item.decode` takes one instruction off the front of some code.  Every item covers one or two
bytes of it, so listing a whole code visits every byte exactly once.
-/

namespace ColonMachine

/-- One instruction as a listing shows it. -/
inductive Item where
  /-- A byte that is no opcode. -/
  | unknown (code : Code)
  /-- An opcode whose operand is cut off by the end of the code. -/
  | lacking (op : Opcode)
  /-- A return that is the last byte of the code. -/
  | finish
  /-- An opcode without an operand. -/
  | plain (op : Opcode)
  /-- An opcode with its operand. -/
  | operand (op : Opcode) (arg : Code)
  deriving Repr, DecidableEq

namespace Item

/-- The instruction that begins with the byte `code` and goes on with `rest`. -/
def decode (code : Code) (rest : List Code) : Item :=
  match Opcode.ofCode? code with
  | none => unknown code
  | some op =>
    if op.hasOperand then
      match rest with
      | [] => lacking op
      | arg :: _ => operand op arg
    else if op == .ret && rest.isEmpty then finish
    else plain op

/-- How many bytes an item covers. -/
def width : Item → Nat
  | operand _ _ => 2
  | unknown _ | lacking _ | finish | plain _ => 1

/-- The text of an item; the dictionary gives the names of called functions. -/
def text (d : Dictionary) : Item → Text
  | unknown code => code.name
  | lacking op => op.name ++ utf8 "(?)"
  | finish => utf8 ";"
  | plain op => op.name
  | operand .call arg => (d.nameOf (Code.callee arg)).asName
  | operand .push arg => Text.ofInt arg.toInt
  | operand op arg => op.name ++ utf8 "(" ++ Text.ofInt arg.toInt ++ utf8 ")"

/-- The item at a position of some code, and the position after it. -/
def at? (code : List Code) (pc : Nat) : Option (Item × Nat) :=
  match code.drop pc with
  | [] => none
  | byte :: rest => some (decode byte rest, pc + (decode byte rest).width)

end Item

namespace Code

/-- The items of code that stands at position `pc`, of which the first `skip` bytes belong to an
item already listed.  Each item comes with the position after it. -/
def itemsAfter : (skip pc : Nat) → List Code → List (Item × Nat)
  | _, _, [] => []
  | skip + 1, pc, _ :: rest => itemsAfter skip (pc + 1) rest
  | 0, pc, byte :: rest =>
    let item := Item.decode byte rest
    (item, pc + item.width) :: itemsAfter (item.width - 1) (pc + 1) rest

/-- The items of some code, each with the position after it. -/
def items (code : List Code) : List (Item × Nat) := itemsAfter 0 0 code

end Code

namespace Dictionary

/-- The definition of a function, as it would be typed where that is possible. -/
def definition (d : Dictionary) (id : FuncId) : Text :=
  match d.get? id with
  | none => utf8 "UNDEFINED_FUNC_" ++ Text.ofInt id
  | some f =>
    let body :=
      if f.native.isSome then utf8 " <native> ;"
      else if f.code.isEmpty then utf8 " <undefined>"
      else (Code.items f.code).flatMap fun item => utf8 " " ++ item.1.text d
    utf8 ": " ++ f.name.asName ++ body ++ (if f.immediate then utf8 " immediate" else [])

/-- The names of all functions but one, oldest first, divided by spaces. -/
def nameList (d : Dictionary) (except : FuncId) : Text :=
  let named := (d.functions.zipIdx).filter fun entry => Int.ofNat entry.2 != except
  -- a name is divided from what stands before it only if that is not empty
  named.foldl (fun text entry =>
    if text.isEmpty then entry.1.name else text ++ [Text.space] ++ entry.1.name) []

end Dictionary

end ColonMachine
