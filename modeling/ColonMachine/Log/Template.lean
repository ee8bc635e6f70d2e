import ColonMachine.Text.Quoted

/-!
# Message templates

A template is a text with places for arguments: `%v` and `%s` stand for the next argument, and
`%%` for a percent sign.  Arguments that are missing, left over, or asked for in an unknown way
are pointed out in the message itself.
-/

namespace ColonMachine.Log

/-- Points out that a place cannot be filled. -/
def complaint (place : Text) (what : Text) : Text :=
  utf8 "%!" ++ place ++ utf8 "(" ++ what ++ utf8 ")"

/-- The arguments that no place asked for. -/
def leftOver : List Text → Text
  | [] => []
  | args =>
    complaint [] (utf8 "EXTRA " ++ Text.join (utf8 ", ") (args.map (utf8 "string=" ++ ·)))

/-- Fills the places of a template, given by its runes. -/
def fillRunes : List Rune → List Text → Text
  | [], args => leftOver args
  | [.scalar 37 _], args => complaint [] (utf8 "NOVERB") ++ leftOver args
  | .scalar 37 _ :: place :: rest, args =>
    if place.code == 37 then 37 :: fillRunes rest args
    else match args with
      | [] => complaint place.bytes (utf8 "MISSING") ++ fillRunes rest []
      | arg :: args =>
        let filled :=
          if place.code == 118 || place.code == 115 then arg
          else if place.code == 113 then arg.quote
          else complaint place.bytes (utf8 "string=" ++ arg)
        filled ++ fillRunes rest args
  | r :: rest, args => r.bytes ++ fillRunes rest args

/-- Fills the places of a template with the arguments. -/
def fill (template : Text) (args : List Text) : Text := fillRunes template.runes args

end ColonMachine.Log
