import ColonMachine.Text.Separator

/-!
# Parameter lists

A parameter list gives names and types, divided by commas.  A name without a type has the type of
the next name that has one, so that `a, b T` gives both names the type `T`.
-/

namespace ColonMachine

/-- A parameter of a method. -/
structure Param where
  /-- Its name. -/
  name : Text
  /-- Its type. -/
  type : Text
  deriving Repr, DecidableEq

namespace Param

/-- The name of a parameter with the words of its own type, if it has one. -/
def split? (part : Text) : Option (Text × List Text) :=
  match part.blankFields with
  | [] => none
  | name :: words => some (name, words)

/-- The parameters given by the parts of a list; `none` if a part is blank. -/
def ofParts? : List Text → Option (List Param)
  | [] => some []
  | part :: parts => do
    let params ← ofParts? parts
    let (name, words) ← split? part
    -- without a type of its own, a parameter shares that of its right neighbour
    let shared := (params.head?.map (·.type)).getD []
    let type := if words.isEmpty then shared else Text.join [Text.space] words
    return { name, type } :: params

/-- The byte that divides parameters. -/
def comma : UInt8 := 44

/-- Reads a parameter list; `none` if a parameter is blank. -/
def parse? (list : Text) : Option (List Param) := ofParts? (list.splitAt comma)

/-- What is passed on for a parameter: its name, spread out if it takes any number of values. -/
def argument (p : Param) : Text :=
  if (utf8 "...").isPrefixOf p.type then p.name ++ utf8 "..." else p.name

end Param

end ColonMachine
