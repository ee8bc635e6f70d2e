import ColonMachine.Text.Separator
import ColonMachine.Text.Printable

/-!
# Quoted texts

Texts are shown in logs and diagnostics between quotes, so that every byte can be seen.  Printable
characters stand as they are; the quote and the backslash are escaped by a backslash; the usual
control characters have letters of their own; any other character is written by its code point,
and a stray byte by its two hexadecimal digits.
-/

namespace ColonMachine.Text

/-! ## Hexadecimal digits -/

/-- The lower case hexadecimal digit of `n < 16`. -/
def hexDigit (n : Nat) : UInt8 := if n < 10 then (48 + n).toUInt8 else (87 + n).toUInt8

/-- The last `width` hexadecimal digits of `n`, most significant first. -/
def hex : (width : Nat) → Nat → Text
  | 0, _ => []
  | width + 1, n => hex width (n / 16) ++ [hexDigit (n % 16)]

/-! ## Escapes -/

/-- The letter after the backslash for the control characters that have one. -/
def controlLetter? (c : Nat) : Option Char :=
  match c with
  | 7 => some 'a'
  | 8 => some 'b'
  | 9 => some 't'
  | 10 => some 'n'
  | 11 => some 'v'
  | 12 => some 'f'
  | 13 => some 'r'
  | _ => none

/-- One rune as it is written between two marks `mark`. -/
def escapeRune (mark : Nat) (r : Rune) : Text :=
  match r with
  | .stray b => utf8 "\\x" ++ hex 2 b.toNat
  | .scalar c bytes =>
    if c == mark || c == 92 then 92 :: bytes
    else if Rune.isPrintable c then bytes
    else match controlLetter? c with
      | some letter => 92 :: Rune.encode letter
      | none =>
        if c < 0x20 || c == 0x7F then utf8 "\\x" ++ hex 2 c
        else if c < 0x10000 then utf8 "\\u" ++ hex 4 c
        else utf8 "\\U" ++ hex 8 c

/-- The text between double quotes. -/
def quote (t : Text) : Text := [34] ++ t.runes.flatMap (escapeRune 34) ++ [34]

/-- The character with code point `c`, between single quotes. -/
def quoteChar (c : Nat) : Text :=
  [39] ++ escapeRune 39 (.scalar c (Rune.encode (Char.ofNat c))) ++ [39]

/-- A list of texts, each quoted, in brackets. -/
def quoteAll (ts : List Text) : Text := utf8 "[" ++ join [space] (ts.map quote) ++ utf8 "]"

/-- A name as it is written in a listing: quoted if it could not be read back as one word. -/
def asName (t : Text) : Text := if t.isEmpty || t.hasSeparator then t.quote else t

end ColonMachine.Text
