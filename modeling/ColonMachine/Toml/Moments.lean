import ColonMachine.Toml.Numbers

/-!
# Dates and times of a settings file

A date is `year-month-day`; a time of day is `hour:minute`, with seconds and a fraction of them if
wanted; and a date and a time may stand together, with or without an offset.  Nothing in the
settings is a date, so `isMoment` only tells whether some characters are one.
-/

namespace ColonMachine.Toml

/-- Whether a year has a 29th of February. -/
def isLeapYear (year : Nat) : Bool := year % 4 == 0 && (year % 100 != 0 || year % 400 == 0)

/-- The number of days of a month. -/
def daysIn (year month : Nat) : Nat :=
  match month with
  | 2 => if isLeapYear year then 29 else 28
  | 4 | 6 | 9 | 11 => 30
  | _ => 31

/-- A number of exactly `width` digits at the front, and the rest. -/
def fixedDigits? (width : Nat) (cs : List Char) : Option (Nat × List Char) :=
  let digits := cs.take width
  if digits.length == width && digits.all isDigit then some (decimalValue digits, cs.drop width)
  else none

/-- What follows a certain character at the front. -/
def after? (c : Char) : List Char → Option (List Char)
  | [] => none
  | d :: rest => if c == d then some rest else none

/-- What follows a date. -/
def afterDate? (cs : List Char) : Option (List Char) := do
  let (year, cs) ← fixedDigits? 4 cs
  let (month, cs) ← fixedDigits? 2 (← after? '-' cs)
  let (day, cs) ← fixedDigits? 2 (← after? '-' cs)
  if 1 ≤ month && month ≤ 12 && 1 ≤ day && day ≤ daysIn year month then some cs else none

/-- What follows a fraction of a second, which may be missing. -/
def afterFraction : List Char → List Char
  | '.' :: d :: rest => if isDigit d then rest.dropWhile isDigit else '.' :: d :: rest
  | cs => cs

/-- What follows seconds, which may be missing. -/
def afterSeconds? : List Char → Option (List Char)
  | ':' :: cs => do
    let (second, cs) ← fixedDigits? 2 cs
    if second < 60 then some (afterFraction cs) else none
  | cs => some cs

/-- What follows a time of day. -/
def afterTime? (cs : List Char) : Option (List Char) := do
  let (hour, cs) ← fixedDigits? 2 cs
  let (minute, cs) ← fixedDigits? 2 (← after? ':' cs)
  if hour < 24 && minute < 60 then afterSeconds? cs else none

/-- Whether some characters are an offset, or nothing. -/
def isOffset : List Char → Bool
  | [] => true
  | ['Z'] => true
  | sign :: cs =>
    (sign == '+' || sign == '-') && ((do
      let (hours, cs) ← fixedDigits? 2 cs
      let (minutes, cs) ← fixedDigits? 2 (← after? ':' cs)
      return cs.isEmpty && hours ≤ 24 && minutes ≤ 60 : Option Bool).getD false)

/-- Whether some characters are nothing, or a time of day with a `T` before it. -/
def isDayTime : List Char → Bool
  | [] => true
  | 'T' :: cs => ((afterTime? cs).map isOffset).getD false
  | _ => false

/-- Small letters count as capital ones, and a space counts as the `T` between date and time. -/
def normalMomentChar (c : Char) : Char :=
  if c == 't' || c == ' ' then 'T' else if c == 'z' then 'Z' else c

/-- Whether some characters are a date, a time of day, or both. -/
def isMoment (cs : List Char) : Bool :=
  let cs := cs.map normalMomentChar
  match afterDate? cs with
  | some rest => isDayTime rest
  | none => ((afterTime? cs).map List.isEmpty).getD false

end ColonMachine.Toml
