import ColonMachine.Text.Basic

/-!
# Numbers in texts

Integers are written in decimal, with a leading `-` when negative (`ofInt`).  They are read by
`readInt`, from left to right: a sign, then digits.  The reading stops at the first fault, so a
text whose digits have already grown past every representable value is out of range even when a
bad character follows.

Words are read in base ten (`readCell`).  Numbers in settings may carry the mark of another base
and may group their digits with underscores (`Radix.marked`).
-/

namespace ColonMachine.Text

/-! ## Writing -/

/-- The ASCII digit of `n < 10`. -/
def digit (n : Nat) : UInt8 := (48 + n).toUInt8

/-- The decimal digits of a natural number. -/
def ofNat (n : Nat) : Text :=
  if n < 10 then [digit n] else ofNat (n / 10) ++ [digit (n % 10)]

/-- The decimal form of an integer. -/
def ofInt : Int → Text
  | .ofNat n => ofNat n
  | .negSucc n => 45 :: ofNat (n + 1)

/-- A list of integers in brackets, divided by spaces. -/
def ofInts (ns : List Int) : Text := utf8 "[" ++ join [space] (ns.map ofInt) ++ utf8 "]"

/-! ## Reading -/

/-- Why a text is not a number of the wanted size. -/
inductive NumberFault where
  /-- It is not written like a number. -/
  | malformed
  /-- It is too large or too small. -/
  | outOfRange
  deriving Repr, DecidableEq

/-- How the base of a number is found. -/
inductive Radix where
  /-- Base ten, digits only. -/
  | ten
  /-- After `0x`, `0o`, `0b` or a leading `0` base 16, 8, 2 or 8, else ten; digits may be grouped
  by underscores. -/
  | marked
  deriving Repr, DecidableEq

/-- The value of a digit or letter, in either case. -/
def digitValue? (b : UInt8) : Option Nat :=
  if 48 ≤ b && b ≤ 57 then some (b.toNat - 48)
  else if 97 ≤ b && b ≤ 122 then some (b.toNat - 87)
  else if 65 ≤ b && b ≤ 90 then some (b.toNat - 55)
  else none

/-- Reads digits of the given base onto the value `n` so far, as long as it stays at most `max`.
With `grouped`, underscores are passed over. -/
def readDigits (base max : Nat) (grouped : Bool) : (n : Nat) → Text → Except NumberFault Nat
  | n, [] => .ok n
  | n, b :: rest =>
    if grouped && b == 95 then readDigits base max grouped n rest
    else match digitValue? b with
      | none => .error .malformed
      | some d =>
        if base ≤ d then .error .malformed
        else if max < n * base + d then .error .outOfRange
        else readDigits base max grouped (n * base + d) rest

/-- The base announced by the front of an unsigned number, and the digits after the mark. -/
def splitRadix : Text → Nat × Text
  | 48 :: mark :: d :: rest =>
    if mark == 98 || mark == 66 then (2, d :: rest)
    else if mark == 111 || mark == 79 then (8, d :: rest)
    else if mark == 120 || mark == 88 then (16, d :: rest)
    else (8, mark :: d :: rest)
  | 48 :: rest => (8, rest)
  | digits => (10, digits)

/-- What stood last while checking the underscores of a number. -/
inductive Grouping where
  | start
  | digit
  | bar
  | other
  deriving DecidableEq

/-- Whether every underscore in the rest of a number stands between two digits. -/
def groupingFrom (hexDigits : Bool) : Grouping → Text → Bool
  | last, [] => last != .bar
  | last, b :: rest =>
    let isDigit := (48 ≤ b && b ≤ 57) ||
      (hexDigits && ((97 ≤ b && b ≤ 102) || (65 ≤ b && b ≤ 70)))
    if isDigit then groupingFrom hexDigits .digit rest
    else if b == 95 then last == .digit && groupingFrom hexDigits .bar rest
    else last != .bar && groupingFrom hexDigits .other rest

/-- Whether the underscores of an unsigned number group its digits.  A base mark counts as a
digit before the first underscore. -/
def grouped : Text → Bool
  | 48 :: mark :: rest =>
    if mark == 98 || mark == 66 || mark == 111 || mark == 79 then groupingFrom false .digit rest
    else if mark == 120 || mark == 88 then groupingFrom true .digit rest
    else groupingFrom false .start (48 :: mark :: rest)
  | t => groupingFrom false .start t

/-- Reads an unsigned number of at most `bits` bits. -/
def readNat (radix : Radix) (bits : Nat) (t : Text) : Except NumberFault Nat :=
  if t.isEmpty then .error .malformed
  else match radix with
    | .ten => readDigits 10 (Nat.pow 2 bits - 1) false 0 t
    | .marked => do
      let (base, digits) := splitRadix t
      let n ← readDigits base (Nat.pow 2 bits - 1) true 0 digits
      if t.contains 95 && !grouped t then .error .malformed else .ok n

/-- The sign at the front of a number, as "negative", and the rest. -/
def splitSign : Text → Bool × Text
  | 43 :: rest => (false, rest)
  | 45 :: rest => (true, rest)
  | t => (false, t)

/-- Reads a signed number of `bits` bits in two's complement. -/
def readInt (radix : Radix) (bits : Nat) (t : Text) : Except NumberFault Int := do
  let (negative, digits) := splitSign t
  let n ← readNat radix bits digits
  if negative then
    if Nat.pow 2 (bits - 1) < n then .error .outOfRange else .ok (-(n : Int))
  else
    if Nat.pow 2 (bits - 1) ≤ n then .error .outOfRange else .ok (n : Int)

/-- Reads a word as a number of 32 bits. -/
def readCell (t : Text) : Except NumberFault Int32 := (readInt .ten 32 t).map Int32.ofInt

end ColonMachine.Text
