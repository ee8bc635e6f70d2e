import ColonMachine.Text.Rune

/-!
# Separators and words

Words are divided by separators: white space in the sense of Unicode, and control characters.
`words` takes a line apart into its maximal separator-free pieces.  A stray byte reads as U+FFFD,
which is no separator, so it is an ordinary part of a word.

Fields divided by white space alone (`blankFields`) are what a list of names and types is read as.
-/

namespace ColonMachine

namespace Rune

/-- White space: the code points with the Unicode property White_Space. -/
def isBlank (c : Nat) : Bool :=
  (0x09 ≤ c && c ≤ 0x0D) || c == 0x20 || c == 0x85 || c == 0xA0 || c == 0x1680 ||
  (0x2000 ≤ c && c ≤ 0x200A) || c == 0x2028 || c == 0x2029 || c == 0x202F || c == 0x205F ||
  c == 0x3000

/-- Control characters: the code points of general category Cc. -/
def isControl (c : Nat) : Bool := c ≤ 0x1F || (0x7F ≤ c && c ≤ 0x9F)

/-- Whether a code point divides words. -/
def isSeparator (c : Nat) : Bool := isBlank c || isControl c

end Rune

namespace Text

/-- Takes a list of runes apart at those whose code point satisfies `sep`: the piece that touches
the front, perhaps empty, and the non-empty pieces after it. -/
def pieces (sep : Nat → Bool) : List Rune → Text × List Text
  | [] => ([], [])
  | r :: rest =>
    let (piece, others) := pieces sep rest
    if sep r.code then ([], if piece.isEmpty then others else piece :: others)
    else (r.bytes ++ piece, others)

/-- The maximal non-empty pieces of a text between code points satisfying `sep`. -/
def fields (sep : Nat → Bool) (t : Text) : List Text :=
  let (piece, others) := pieces sep t.runes
  if piece.isEmpty then others else piece :: others

/-- The words of a line. -/
def words : Text → List Text := fields Rune.isSeparator

/-- The fields of a text between stretches of white space. -/
def blankFields : Text → List Text := fields Rune.isBlank

/-- Whether some rune of the text is a separator. -/
def hasSeparator (t : Text) : Bool := t.runes.any fun r => Rune.isSeparator r.code

end Text

end ColonMachine
