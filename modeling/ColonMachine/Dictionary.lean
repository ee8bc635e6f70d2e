import ColonMachine.Code.Opcode
import ColonMachine.Failure
import ColonMachine.Guard
import ColonMachine.Text.Quoted

/-!
# The dictionary

The dictionary is a list of functions that only ever grows at the end, so that a function's
position is an id for it that never changes.  A function is known by its name; should two have the
same name, the older one is found.

A function with code is interpreted, whatever else it has; one without code is run by its native,
and one with neither is still being defined.
-/

namespace ColonMachine

/-- The position of a function in the dictionary.  Not every id names a function. -/
abbrev FuncId := Int

/-- The functions that every machine is born with. -/
inductive Primitive where
  /-- Print the top of the stack. -/
  | print
  /-- Print the whole stack. -/
  | printStack
  /-- Add. -/
  | add
  /-- Subtract. -/
  | sub
  /-- Multiply. -/
  | mul
  /-- Divide. -/
  | div
  /-- Copy the top of the stack. -/
  | dup
  /-- Drop the top of the stack. -/
  | drop
  /-- Empty the stack. -/
  | clear
  /-- Exchange the two top elements. -/
  | swap
  /-- Stop the machine. -/
  | exit
  /-- Open a definition. -/
  | define
  /-- Close the open definition. -/
  | endDefine
  /-- Print the names of all functions. -/
  | words
  /-- Print the definition of a function. -/
  | see
  deriving Repr, DecidableEq

/-- What a function without code does. -/
inductive Native where
  /-- A primitive of the machine. -/
  | primitive (p : Primitive)
  /-- Nothing. -/
  | noop
  /-- Push a number. -/
  | push (n : Int32)
  /-- Raise a fault worded by the native. -/
  | fail (text : Text)
  /-- Panic. -/
  | panic (payload : Payload)
  /-- Abandon the thread. -/
  | abandon
  deriving Repr, DecidableEq

/-- A named function. -/
structure Function where
  /-- The name it is found by. -/
  name : Text
  /-- Its code. -/
  code : List Code := []
  /-- What runs it while it has no code. -/
  native : Option Native := none
  /-- Whether it runs even while a definition is being compiled. -/
  immediate : Bool := false
  deriving Repr, DecidableEq

namespace Function

/-- Whether the function has no code. -/
def isNative (f : Function) : Bool := f.code.isEmpty

/-- Adds code at the end. -/
def emit (f : Function) (code : List Code) : Function := { f with code := f.code ++ code }

end Function

/-- An append-only table of functions. -/
structure Dictionary where
  /-- The functions, oldest first. -/
  functions : List Function := []
  deriving Repr, DecidableEq

namespace Dictionary

/-- How many functions there are. -/
def size (d : Dictionary) : Nat := d.functions.length

/-- The function with the given id. -/
def get? (d : Dictionary) : FuncId → Option Function
  | .ofNat i => d.functions[i]?
  | .negSucc _ => none

/-- The id of the oldest function of that name. -/
def find? (d : Dictionary) (name : Text) : Option FuncId :=
  (d.functions.findIdx? fun f => f.name == name).map Int.ofNat

/-- The id that the next function will get. -/
def nextId (d : Dictionary) : FuncId := d.size

/-- Adds a function at the end. -/
def push (d : Dictionary) (f : Function) : Dictionary := { functions := d.functions ++ [f] }

/-- Adds a function that has only a name. -/
def add (d : Dictionary) (name : Text) : Dictionary := d.push { name }

/-- Changes the function with the given id, if there is one. -/
def modify (d : Dictionary) (f : Function → Function) : FuncId → Dictionary
  | .ofNat i => { functions := d.functions.modify i f }
  | .negSucc _ => d

/-- Adds code to the function with the given id, if there is one. -/
def emit (d : Dictionary) (id : FuncId) (code : List Code) : Dictionary :=
  d.modify (·.emit code) id

/-- The name of a function, or a placeholder with its id. -/
def nameOf (d : Dictionary) (id : FuncId) : Text :=
  match d.get? id with
  | some f => f.name
  | none => utf8 "#" ++ Text.ofInt id

/-- Attaches a native to a function without code. -/
def bind (d : Dictionary) (id : FuncId) (native : Native) : Except Failure Dictionary :=
  match d.get? id with
  | none =>
    .error (.message (utf8 "cannot bind native to undefined function #" ++ Text.ofInt id))
  | some f =>
    if f.code.isEmpty then .ok (d.modify (fun f => { f with native := some native }) id)
    else .error (.message (utf8 "cannot bind native to interpreted function " ++ f.name.quote))

end Dictionary

end ColonMachine
