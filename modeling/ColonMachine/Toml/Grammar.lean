import ColonMachine.Toml.Strings
import ColonMachine.Toml.Numbers
import ColonMachine.Toml.Moments

/-!
# The grammar of a settings file

A settings file is a sequence of statements: headers, which open a table, and assignments of a
value to a key.  `statements?` reads them, and stops at the first character that does not belong.
What the statements mean together, and which of them contradict each other, is not decided here.

Values nest, so their readers take a fuel.  Every level of nesting and every item costs a character,
hence twice the number of characters is always enough.
-/

namespace ColonMachine.Toml

/-- A name with its dots: the names of the tables on the way, then the last name. -/
abbrev Key := List Text

/-- A value as it is written. -/
inductive Literal where
  /-- A string. -/
  | string (text : Text)
  /-- An integer. -/
  | integer (n : Int)
  /-- A truth value. -/
  | boolean (b : Bool)
  /-- A fractional number. -/
  | fraction
  /-- A date or a time. -/
  | moment
  /-- An array. -/
  | array (items : List Literal)
  /-- A table in braces. -/
  | inline (pairs : List (Key × Literal))

/-- A statement of a settings file. -/
inductive Statement where
  /-- A header that opens a table. -/
  | table (key : Key)
  /-- A header that opens one more table of an array. -/
  | element (key : Key)
  /-- An assignment. -/
  | assign (key : Key) (value : Literal)

/-! ## Blanks -/

/-- Whether a character is a blank within a line. -/
def isInlineBlank (c : Char) : Bool := c == ' ' || c == '\t'

/-- Passes over blanks within a line. -/
def skipBlanks (cs : List Char) : List Char := cs.dropWhile isInlineBlank

/-- Passes over blanks, line breaks and comments; `comment` tells whether a comment is open. -/
def skipFrom : (comment : Bool) → List Char → List Char
  | _, [] => []
  | true, c :: rest => skipFrom (!isLineBreak c) rest
  | false, c :: rest =>
    if isSpacing c then skipFrom false rest
    else if c == '#' then skipFrom true rest
    else c :: rest

/-- Passes over blanks, line breaks and comments. -/
def skipLayout : List Char → List Char := skipFrom false

/-- What follows the end of a line, after blanks and a comment. -/
def endOfLine? (cs : List Char) : Option (List Char) :=
  match skipBlanks cs with
  | [] => some []
  | c :: rest =>
    if c == '#' then some (rest.dropWhile fun c => !isLineBreak c)
    else if isLineBreak c then some rest
    else none

/-! ## Keys -/

/-- Whether a character may stand in a name without quotes. -/
def isBareChar (c : Char) : Bool :=
  isDigit c || ('a' ≤ c && c ≤ 'z') || ('A' ≤ c && c ≤ 'Z') || c == '_' || c == '-'

/-- One name of a key. -/
def name? : List Char → Option (Text × List Char)
  | '"' :: rest => basicString? rest
  | '\'' :: rest => literalString? rest
  | cs =>
    let bare := cs.takeWhile isBareChar
    if bare.isEmpty then none else some (Text.ofChars bare, cs.dropWhile isBareChar)

/-- A key up to the character that closes it, and what follows that. -/
def key? (close : Char) : (fuel : Nat) → List Char → Option (Key × List Char)
  | 0, _ => none
  | fuel + 1, cs => do
    let (first, rest) ← name? (skipBlanks cs)
    match skipBlanks rest with
    | [] => none
    | c :: rest =>
      if c == '.' then
        let (others, rest) ← key? close fuel rest
        return (first :: others, rest)
      else if c == close then return ([first], rest)
      else none

/-! ## Numbers -/

/-- Whether a character goes on in a fractional number. -/
def isFractionChar (c : Char) : Bool :=
  isDigit c || c == '_' || c == '.' || c == '-' || c == '+' || c == 'e' || c == 'E'

/-- Whether a character goes on in a date or time. -/
def isMomentChar (c : Char) : Bool :=
  isDigit c || c == '-' || c == ':' || c == 'T' || c == 't' || c == ' ' || c == '.' || c == 'Z' ||
    c == 'z' || c == '+'

/-- Whether a fractional number goes on after its first digits. -/
def opensFraction : List Char → Bool
  | c :: _ => c == '.' || c == 'e' || c == 'E'
  | [] => false

/-- Whether a date or time goes on after its first digits. -/
def opensMoment : List Char → Bool
  | c :: _ => c == '-' || c == ':'
  | [] => false

/-- A fractional number at the front. -/
def fraction? (cs : List Char) : Option (Literal × List Char) :=
  if isFraction (cs.takeWhile isFractionChar) then
    some (.fraction, cs.dropWhile isFractionChar)
  else none

/-- A date or time at the front, which takes the blanks after it along. -/
def moment? (cs : List Char) : Option (Literal × List Char) :=
  let written := (cs.takeWhile isMomentChar).reverse.dropWhile (· == ' ')
  if isMoment written.reverse then some (.moment, cs.dropWhile isMomentChar) else none

/-- A decimal number at the front, with a sign or without. -/
def decimal? (sign digits : List Char) : Option (Literal × List Char) :=
  let isPart (c : Char) : Bool := isDigit c || c == '_'
  let rest := digits.dropWhile isPart
  if opensFraction rest then fraction? (sign ++ digits)
  else (integer? (sign ++ digits.takeWhile isPart)).map fun n => (.integer n, rest)

/-- The digits that may follow a mark of a base. -/
def markDigits? (mark : Char) : Option (Char → Bool) :=
  match mark with
  | 'b' => some fun c => c == '0' || c == '1'
  | 'o' => some fun c => '0' ≤ c && c ≤ '7'
  | 'x' => some isAnyDigit
  | _ => none

/-- Whether a mark of a base comes after a zero. -/
def opensMark : List Char → Bool
  | '0' :: mark :: _ => (markDigits? mark).isSome
  | _ => false

/-- A number with a mark of its base at the front. -/
def marked? : List Char → Option (Literal × List Char)
  | zero :: mark :: rest => do
    let digits ← markDigits? mark
    if (rest.head?.map digits).getD false then
      let isPart (c : Char) : Bool := digits c || c == '_'
      (integer? (zero :: mark :: rest.takeWhile isPart)).map fun n =>
        (.integer n, rest.dropWhile isPart)
    else none
  | _ => none

/-- A number, a date or a time that begins with a digit. -/
def unsigned? (cs : List Char) : Option (Literal × List Char) :=
  if opensMark cs then marked? cs
  else if opensMoment (cs.dropWhile isDigit) then moment? cs
  else decimal? [] cs

/-- Infinity, or a number that is none. -/
def notFinite? : List Char → Option (Literal × List Char)
  | 'i' :: 'n' :: 'f' :: rest => some (.fraction, rest)
  | 'n' :: 'a' :: 'n' :: rest => some (.fraction, rest)
  | _ => none

/-- A number after its sign. -/
def signed? (sign : Char) (cs : List Char) : Option (Literal × List Char) :=
  match cs with
  | [] => none
  | c :: _ =>
    if isDigit c then if opensMark cs then none else decimal? [sign] cs else notFinite? cs

/-! ## Values -/

/-- A value that is neither an array nor a table. -/
def scalar? : List Char → Option (Literal × List Char)
  | [] => none
  | '"' :: rest => (afterDoubleQuote? rest).map fun parts => (.string parts.1, parts.2)
  | '\'' :: rest => (afterSingleQuote? rest).map fun parts => (.string parts.1, parts.2)
  | '+' :: rest => signed? '+' rest
  | '-' :: rest => signed? '-' rest
  | 't' :: 'r' :: 'u' :: 'e' :: rest => some (.boolean true, rest)
  | 'f' :: 'a' :: 'l' :: 's' :: 'e' :: rest => some (.boolean false, rest)
  | c :: rest => if isDigit c then unsigned? (c :: rest) else notFinite? (c :: rest)

mutual

/-- A value at the front. -/
def value? : (fuel : Nat) → List Char → Option (Literal × List Char)
  | 0, _ => none
  | fuel + 1, cs =>
    match cs with
    | '[' :: rest => (items? fuel (skipLayout rest)).map fun parts => (.array parts.1, parts.2)
    | '\x7b' :: rest => (pairs? fuel (skipLayout rest)).map fun parts => (.inline parts.1, parts.2)
    | _ => scalar? cs

/-- The items of an array, up to its closing bracket. -/
def items? : (fuel : Nat) → List Char → Option (List Literal × List Char)
  | 0, _ => none
  | fuel + 1, cs =>
    match cs with
    | ']' :: rest => some ([], rest)
    | _ => do
      let (item, rest) ← value? fuel cs
      match skipLayout rest with
      | ']' :: rest => return ([item], rest)
      | ',' :: rest =>
        let (items, rest) ← items? fuel (skipLayout rest)
        return (item :: items, rest)
      | _ => none

/-- The assignments in braces, up to the closing brace. -/
def pairs? : (fuel : Nat) → List Char → Option (List (Key × Literal) × List Char)
  | 0, _ => none
  | fuel + 1, cs =>
    match cs with
    | '\x7d' :: rest => some ([], rest)
    | _ => do
      let (key, rest) ← key? '=' fuel cs
      let (value, rest) ← value? fuel (skipBlanks rest)
      match skipLayout rest with
      | '\x7d' :: rest => return ([(key, value)], rest)
      | ',' :: rest =>
        let (pairs, rest) ← pairs? fuel (skipLayout rest)
        return ((key, value) :: pairs, rest)
      | _ => none

end

/-! ## Statements -/

/-- A statement at the front, where there is no blank. -/
def statement? (fuel : Nat) : List Char → Option (Statement × List Char)
  | '[' :: '[' :: cs => do
    let (key, rest) ← key? ']' fuel cs
    return (.element key, ← after? ']' rest)
  | '[' :: cs => do
    let (key, rest) ← key? ']' fuel cs
    return (.table key, rest)
  | cs => do
    let (key, rest) ← key? '=' fuel cs
    let (value, rest) ← value? fuel (skipBlanks rest)
    return (.assign key value, rest)

/-- All statements, each on lines of its own. -/
def statementsFrom? : (fuel : Nat) → List Char → Option (List Statement)
  | 0, _ => none
  | fuel + 1, cs =>
    match skipLayout cs with
    | [] => some []
    | cs => do
      let (statement, rest) ← statement? fuel cs
      let others ← statementsFrom? fuel (← endOfLine? rest)
      return statement :: others

/-- The statements of a settings file. -/
def statements? (cs : List Char) : Option (List Statement) := statementsFrom? (2 * cs.length + 2) cs

/-! ## The characters of a file -/

/-- Whether a control character may not stand in a settings file. -/
def isForbidden (c : Char) : Bool :=
  (c.toNat < 0x20 && c != '\t' && c != '\n' && c != '\r') || c.toNat == 0x7F

/-- Whether a carriage return stands without a line break after it. -/
def hasLoneReturn : List Char → Bool
  | [] => false
  | '\r' :: rest => rest.head? != some '\n' || hasLoneReturn rest
  | _ :: rest => hasLoneReturn rest

/-- The content of a file without a byte order mark. -/
def withoutByteOrderMark (t : Text) : Text :=
  match t with
  | 0xFF :: 0xFE :: rest => rest
  | 0xFE :: 0xFF :: rest => rest
  | 0xEF :: 0xBB :: 0xBF :: rest => rest
  | _ => t

/-- The characters of a settings file: `none` if it is not well-formed text. -/
def characters? (t : Text) : Option (List Char) := do
  let cs ← (withoutByteOrderMark t).chars?
  if cs.any isForbidden || hasLoneReturn cs then none else some cs

end ColonMachine.Toml
