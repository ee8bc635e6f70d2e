import ColonMachine.Machine.Step

/-!
# Dumps

A dump shows the whole state of the engine: where it stands, its stacks, and every function with
its definition.  Ids are padded to a common width, on the left, or on the right if the width given
is negative.
-/

namespace ColonMachine

namespace Text

/-- The largest width that can be asked for. -/
def maxWidth : Nat := 1000000

/-- Pads a text to a width: on the left, or on the right if the width is negative.  A width out of
bounds is complained about, in front of the text as it is. -/
def padTo (width : Int) (t : Text) : Text :=
  if maxWidth < width.natAbs then utf8 "%!(BADWIDTH)" ++ t
  else if width < 0 then t.padRight width.natAbs
  else t.padLeft width.natAbs

end Text

namespace Machine

/-- The name of a function, as it is listed. -/
def listedName (m : Machine) (id : FuncId) : Text := (m.engine.dict.nameOf id).asName

/-- The return stack, outermost call first. -/
def framesText (m : Machine) : Text :=
  let frame (f : Frame) : Text := m.listedName f.fn ++ utf8 "@" ++ Text.ofInt f.pc
  utf8 "[" ++ Text.join [Text.space] (m.engine.frames.reverse.map frame) ++ utf8 "]"

/-- One function of the dictionary; with `raw`, its code is shown as numbers too. -/
def dumpFunction (m : Machine) (width : Int) (raw : Bool) (id : Nat) : Text :=
  let code := ((m.engine.dict.get? id).map (·.code)).getD []
  utf8 "  #" ++ Text.padTo width (Text.ofNat id) ++ utf8 " " ++ m.engine.dict.definition id ++
    (if raw && !code.isEmpty then
      utf8 "\n   " ++ Text.padTo width [] ++ utf8 " " ++ Code.listText code
    else []) ++ [Text.newline]

/-- The whole state of the engine.  A width of zero stands for the width of the dictionary's
size. -/
def dump (m : Machine) (width : Int) (raw : Bool) : Text :=
  let e := m.engine
  let width := if width = 0 then ((Text.ofNat e.dict.size).length : Int) else width
  utf8 "# VM Dump\n" ++
    utf8 "  fn: " ++ m.listedName e.fn ++ utf8 "\n  pc: " ++ Text.ofInt e.pc ++
    utf8 "\n  mode: " ++ e.mode.name ++ [Text.newline] ++
    (match e.defining with
      | some id => utf8 "  defining: " ++ m.listedName id ++ [Text.newline]
      | none => []) ++
    utf8 "  stack: " ++ m.stackText ++ utf8 "\n  rstack: " ++ m.framesText ++
    utf8 "\n# Dictionary\n" ++
    (List.range e.dict.size).flatMap (m.dumpFunction width raw)

end Machine

end ColonMachine
