import ColonMachine.Text.Quoted

/-!
# Durations

A duration is written as a sum of parts such as `1h2.5m`, each a decimal number and a unit, with
one sign in front of it all; a lone `0` needs no unit.  Its value is a number of nanoseconds that
fits into 64 bits.

The digits before a point count exactly.  The digits after it are turned into nanoseconds in
double precision, and what is less than a nanosecond is dropped.
-/

namespace ColonMachine

namespace Duration

/-- Why a text is not a duration. -/
inductive Problem where
  /-- It is not written like one, or too long. -/
  | invalid
  /-- A number has no unit. -/
  | missingUnit
  /-- There is no such unit. -/
  | unknownUnit (unit : Text)
  deriving Repr, DecidableEq

/-! ## Messages -/

/-- A byte of a text in quotes. -/
def escapeByte (b : UInt8) : Text :=
  if b < 0x20 || 0x80 ≤ b then utf8 "\\x" ++ Text.hex 2 b.toNat
  else if b == 34 || b == 92 then [92, b]
  else [b]

/-- A text in quotes, where every byte outside ASCII is written by its digits. -/
def quote (t : Text) : Text := [34] ++ t.flatMap escapeByte ++ [34]

/-- What is said about a text that is not a duration. -/
def Problem.message (text : Text) : Problem → Text
  | invalid => utf8 "time: invalid duration " ++ quote text
  | missingUnit => utf8 "time: missing unit in duration " ++ quote text
  | unknownUnit unit =>
    utf8 "time: unknown unit " ++ quote unit ++ utf8 " in duration " ++ quote text

/-! ## Numbers -/

/-- Whether a byte is a decimal digit. -/
def isDigit (b : UInt8) : Bool := 48 ≤ b && b ≤ 57

/-- No sum of parts may pass this many nanoseconds; only a negative duration may reach it. -/
def bound : Nat := Nat.pow 2 63

/-- The value of the digits before a point, unless it passes the bound. -/
def whole? (digits : Text) : Option Nat :=
  digits.foldlM (fun n b =>
    let n := n * 10 + (b.toNat - 48)
    if bound < n then none else some n) 0

/-- The digits after a point, as a number of `unit` parts of which `scale` make one. -/
structure Decimals where
  /-- The number. -/
  value : Nat := 0
  /-- How many of it make one. -/
  scale : Float := 1
  /-- Whether all further digits are passed over, because there are too many. -/
  full : Bool := false

/-- Takes one more digit. -/
def Decimals.push (d : Decimals) (b : UInt8) : Decimals :=
  if d.full then d
  else if (bound - 1) / 10 < d.value then { d with full := true }
  else
    let value := d.value * 10 + (b.toNat - 48)
    if bound < value then { d with full := true }
    else { d with value, scale := d.scale * 10 }

/-- The number of nanoseconds in a part of a unit. -/
def Decimals.nanoseconds (unit : Nat) (d : Decimals) : Nat :=
  if d.value == 0 then 0
  else (d.value.toUInt64.toFloat * (unit.toUInt64.toFloat / d.scale)).toUInt64.toNat

/-! ## Parts -/

/-- The nanoseconds of a unit. -/
def unit? (name : Text) : Option Nat :=
  [("ns", 1), ("us", 1000), ("µs", 1000), ("μs", 1000), ("ms", 1000000),
    ("s", 1000000000), ("m", 60000000000), ("h", 3600000000000)].findSome? fun (unit, n) =>
      if utf8 unit == name then some n else none

/-- The bytes of the digits after a point, if there is one, and the rest. -/
def splitDecimals : Text → Option Text × Text
  | 46 :: rest => (some (rest.takeWhile isDigit), rest.dropWhile isDigit)
  | rest => (none, rest)

/-- The nanoseconds of the part at the front, and the rest. -/
def part (t : Text) : Except Problem (Nat × Text) := do
  let digits := t.takeWhile isDigit
  let (decimals, rest) := splitDecimals (t.dropWhile isDigit)
  match whole? digits with
  | none => throw .invalid
  | some value =>
    if digits.isEmpty && (decimals.getD []).isEmpty then throw .invalid
    let inUnit (b : UInt8) : Bool := !(b == 46 || isDigit b)
    let name := rest.takeWhile inUnit
    if name.isEmpty then throw .missingUnit
    match unit? name with
    | none => throw (.unknownUnit name)
    | some unit =>
      if bound / unit < value then throw .invalid
      let n := value * unit + ((decimals.getD []).foldl Decimals.push {}).nanoseconds unit
      if bound < n then throw .invalid
      return (n, rest.dropWhile inUnit)

/-- The sum of the parts, added in 64 bits to the sum `n` of those before.  The fuel is at least
the number of bytes. -/
def sum : (fuel : Nat) → (n : Nat) → Text → Except Problem Nat
  | _, n, [] => .ok n
  | 0, _, _ => .error .invalid
  | fuel + 1, n, t => do
    let (next, rest) ← part t
    let n := (n + next) % 2 ^ 64
    if bound < n then throw .invalid
    sum fuel n rest

/-- The nanoseconds of a duration. -/
def parse (t : Text) : Except Problem Int := do
  let (negative, t) :=
    match t with
    | 43 :: rest => (false, rest)
    | 45 :: rest => (true, rest)
    | _ => (false, t)
  if t == [48] then return 0
  if t.isEmpty then throw .invalid
  let n ← sum t.length 0 t
  if negative then return -(n : Int)
  if n == bound then throw .invalid
  return n

end Duration

end ColonMachine
