import ColonMachine.Text.Decimal
import ColonMachine.Text.Rune

/-!
# Numbers of a settings file

An integer is decimal, with or without a sign, or has one of the marks `0x`, `0o` and `0b`; it must
fit into 64 bits.  A fractional number has a point or an exponent, and must not be too large to be
represented in double precision.  Underscores may stand between digits, and a decimal number of
several digits does not begin with a zero.

The value of an integer matters.  Of a fractional number only it matters that it is one, so that
`isFraction` is a test.
-/

namespace ColonMachine.Toml

/-- Whether a character is a decimal digit. -/
def isDigit (c : Char) : Bool := '0' ≤ c && c ≤ '9'

/-- Whether a character is a digit of any of the bases. -/
def isAnyDigit (c : Char) : Bool := isDigit c || ('a' ≤ c && c ≤ 'f') || ('A' ≤ c && c ≤ 'F')

/-- Whether underscores stand only after digits, and none at the end.  `ready` tells whether a
digit was last. -/
def barsBetween : (ready : Bool) → List Char → Bool
  | ready, [] => ready
  | ready, c :: rest => (c != '_' || ready) && barsBetween (isAnyDigit c) rest

/-- Whether the underscores of a number are in place. -/
def barsInPlace : List Char → Bool := barsBetween false

/-- Whether a number begins with a zero that is not its only digit, nor part of a mark. -/
def hasLeadingZero : List Char → Bool
  | '0' :: mark :: _ => !(mark == 'b' || mark == 'o' || mark == 'x')
  | '+' :: '0' :: _ :: _ => true
  | '-' :: '0' :: _ :: _ => true
  | _ => false

/-- The value of an integer. -/
def integer? (cs : List Char) : Option Int :=
  if barsInPlace cs && !hasLeadingZero cs then
    (Text.readInt .marked 64 (Text.ofChars cs)).toOption
  else none

/-! ## Fractional numbers -/

/-- The value of decimal digits. -/
def decimalValue (digits : List Char) : Nat := digits.foldl (fun n c => n * 10 + (c.toNat - 48)) 0

/-- The value of the digits of an exponent.  Once it has reached ten thousand, which is out of
reach for all but the longest numbers, no more digits are taken. -/
def exponentValue (digits : List Char) : Nat :=
  digits.foldl (fun n c => if n < 10000 then n * 10 + (c.toNat - 48) else n) 0

/-- A fractional number without its sign: the digits before and after the point, and the exponent
of ten. -/
structure Fraction where
  /-- The digits before the point. -/
  whole : List Char
  /-- The digits after the point. -/
  part : List Char
  /-- The exponent. -/
  exponent : Int

/-- The exponent at the end of a number, where there may be none. -/
def exponent? : List Char → Option Int
  | [] => some 0
  | mark :: rest =>
    if mark == 'e' || mark == 'E' then
      let (negative, digits) :=
        match rest with
        | '+' :: digits => (false, digits)
        | '-' :: digits => (true, digits)
        | digits => (false, digits)
      if digits.isEmpty || !digits.all isDigit then none
      else if negative then some (-exponentValue digits) else some (exponentValue digits)
    else none

/-- Reads a fractional number that has no sign and no underscores. -/
def Fraction.read? (cs : List Char) : Option Fraction := do
  let whole := cs.takeWhile isDigit
  if whole.isEmpty then none
  match cs.dropWhile isDigit with
  | '.' :: rest =>
    let part := rest.takeWhile isDigit
    return { whole, part, exponent := ← exponent? (rest.dropWhile isDigit) }
  | rest => return { whole, part := [], exponent := ← exponent? rest }

/-- From this number on, rounding to double precision gives no finite number. -/
def Fraction.bound : Nat := Nat.pow 2 1024 - Nat.pow 2 970

/-- Whether a number is below the bound.  Exponents far out of reach are decided without computing
the power. -/
def Fraction.isFinite (f : Fraction) : Bool :=
  let n := decimalValue (f.whole ++ f.part)
  let shift := f.exponent - f.part.length
  let size := (f.whole ++ f.part).length
  if n == 0 || shift + size < 0 then true
  else if 400 + (size : Int) < shift + size then false
  else match shift with
    | .ofNat k => n * Nat.pow 10 k < bound
    | .negSucc k => n < bound * Nat.pow 10 (k + 1)

/-- A number without its sign. -/
def withoutSign : List Char → List Char
  | '+' :: rest => rest
  | '-' :: rest => rest
  | cs => cs

/-- Whether every point is followed by a digit. -/
def pointsFollowed : List Char → Bool
  | [] => true
  | '.' :: rest => (rest.head?.map isDigit).getD false && pointsFollowed rest
  | _ :: rest => pointsFollowed rest

/-- The non-empty pieces of a number between points and exponent marks. -/
def numberParts (cs : List Char) : List (List Char) :=
  (cs.splitBy fun a b => !isMark a && !isMark b).filter fun piece => !piece.any isMark
where
  /-- Whether a character divides a number into pieces. -/
  isMark (c : Char) : Bool := c == '.' || c == 'e' || c == 'E'

/-- Whether some characters make a fractional number that can be represented. -/
def isFraction (cs : List Char) : Bool :=
  let parts := numberParts cs
  parts.all barsInPlace && !((parts.head?.map hasLeadingZero).getD false) && pointsFollowed cs &&
    ((Fraction.read? (withoutSign (cs.filter (· != '_')))).map Fraction.isFinite).getD false

end ColonMachine.Toml
