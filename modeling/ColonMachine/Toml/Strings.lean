import ColonMachine.Text.Rune

/-!
# Strings of a settings file

There are four kinds of strings: basic ones between double quotes, with escapes, and literal ones
between single quotes, without; each on one line, or over several lines between tripled quotes.

Every reader here takes the characters after the opening quotes, and gives the content and the
characters after the closing quotes.  `none` stands for any error.
-/

namespace ColonMachine.Toml

/-- Either character of a line break. -/
def isLineBreak (c : Char) : Bool := c == '\n' || c == '\r'

/-- The value of a hexadecimal digit. -/
def hexValue? (c : Char) : Option Nat :=
  if '0' ≤ c && c ≤ '9' then some (c.toNat - 48)
  else if 'a' ≤ c && c ≤ 'f' then some (c.toNat - 87)
  else if 'A' ≤ c && c ≤ 'F' then some (c.toNat - 55)
  else none

/-- The value of hexadecimal digits. -/
def hexNumber? (cs : List Char) : Option Nat :=
  cs.foldlM (fun n c => (hexValue? c).map (n * 16 + ·)) 0

/-- The character with a code point given by `width` hexadecimal digits, and what follows them. -/
def codePoint? (width : Nat) (cs : List Char) : Option (Char × List Char) := do
  let digits := cs.take width
  if digits.length < width then none
  else
    let n ← hexNumber? digits
    if h : n.isValidChar then some (Char.ofNatAux n h, cs.drop width) else none

/-- How many hexadecimal digits follow the letter of an escape by code point. -/
def codeWidth? (letter : Char) : Option Nat :=
  match letter with
  | 'x' => some 2
  | 'u' => some 4
  | 'U' => some 8
  | _ => none

/-- The character that a letter stands for after a backslash. -/
def simpleEscape? (letter : Char) : Option Char :=
  match letter with
  | 'b' => some '\x08'
  | 't' => some '\t'
  | 'n' => some '\n'
  | 'f' => some '\x0c'
  | 'r' => some '\r'
  | 'e' => some '\x1b'
  | '"' => some '"'
  | '\\' => some '\\'
  | _ => none

/-- Replaces the escapes of some content, of which the next `skip` characters belong to an escape
already replaced. -/
def unescapeAfter : (skip : Nat) → List Char → Option (List Char)
  | _, [] => some []
  | skip + 1, _ :: rest => unescapeAfter skip rest
  | 0, c :: rest =>
    if c != '\\' then (unescapeAfter 0 rest).map (c :: ·)
    else match rest with
      | [] => none
      | letter :: digits =>
        match simpleEscape? letter, codeWidth? letter with
        | some d, _ => (unescapeAfter 1 rest).map (d :: ·)
        | none, some width => do
          let (d, _) ← codePoint? width digits
          (unescapeAfter (1 + width) rest).map (d :: ·)
        | none, none => none

/-- Replaces the escapes of some content. -/
def unescape : List Char → Option (List Char) := unescapeAfter 0

/-! ## On one line -/

/-- The content of a basic string, escapes and all, up to its closing quote. -/
def basicContent? : List Char → Option (List Char × List Char)
  | [] => none
  | '"' :: rest => some ([], rest)
  | '\\' :: c :: rest =>
    if isLineBreak c then none
    else (basicContent? rest).map fun parts => ('\\' :: c :: parts.1, parts.2)
  | c :: rest =>
    if isLineBreak c then none else (basicContent? rest).map fun parts => (c :: parts.1, parts.2)

/-- A basic string on one line. -/
def basicString? (cs : List Char) : Option (Text × List Char) := do
  let (content, rest) ← basicContent? cs
  return (Text.ofChars (← unescape content), rest)

/-- A literal string on one line. -/
def literalString? : List Char → Option (Text × List Char)
  | [] => none
  | '\'' :: rest => some ([], rest)
  | c :: rest =>
    if isLineBreak c then none
    else (literalString? rest).map fun parts => (Rune.encode c ++ parts.1, parts.2)

/-! ## Over several lines -/

/-- Whether two quotes stand right before a place, given what stands before it in reverse. -/
def twoQuotesBefore (quote : Char) : List Char → Bool
  | a :: b :: _ => a == quote && b == quote
  | _ => false

/-- Whether the two quotes before a place follow a backslash. -/
def quotesAfterBackslash : List Char → Bool
  | _ :: _ :: c :: _ => c == '\\'
  | _ => false

/-- The content of a string between tripled quotes, given what was already passed in reverse.  Up
to two quotes may stand right before the closing ones.  With `escapes`, a backslash takes the
character after it along. -/
def multilineContent? (quote : Char) (escapes : Bool) :
    (before : List Char) → List Char → Option (List Char × List Char)
  | _, [] => none
  | before, c :: rest =>
    if c == quote then
      match rest with
      | a :: b :: more =>
        if a == quote && b == quote then
          if more.head? == some quote then
            if twoQuotesBefore quote before && !(escapes && quotesAfterBackslash before) then none
            else multilineContent? quote escapes (c :: before) rest
          else some (before.reverse, more)
        else multilineContent? quote escapes (c :: before) rest
      | _ => multilineContent? quote escapes (c :: before) rest
    else if escapes && c == '\\' then
      match rest with
      | [] => none
      | d :: more => multilineContent? quote escapes (d :: c :: before) more
    else multilineContent? quote escapes (c :: before) rest

/-- Drops a line break at the very beginning. -/
def dropFirstBreak : List Char → List Char
  | '\n' :: rest => rest
  | '\r' :: '\n' :: rest => rest
  | cs => cs

/-- Whether a character is a blank or belongs to a line break. -/
def isSpacing (c : Char) : Bool := c == ' ' || c == '\t' || isLineBreak c

/-- Joins lines that end in a backslash: the backslash goes, with all the spacing after it. -/
def joinLines (cs : List Char) : List Char :=
  match cs with
  | [] => []
  | '\\' :: '\\' :: rest => '\\' :: '\\' :: joinLines rest
  | c :: rest =>
    if c == '\\' && (rest.takeWhile isSpacing).contains '\n' then
      joinLines (rest.dropWhile isSpacing)
    else c :: joinLines rest
termination_by cs.length
decreasing_by
  · simp only [List.length_cons]
    omega
  · have := (List.dropWhile_suffix isSpacing (l := rest)).length_le
    simp only [List.length_cons]
    omega
  · simp

/-- Whether `width` hexadecimal digits come next. -/
def startsHex (width : Nat) (cs : List Char) : Bool :=
  let digits := cs.take width
  digits.length == width && digits.all fun c => (hexValue? c).isSome

/-- Whether something that a backslash may stand before comes next. -/
def startsEscape (c : Char) (rest : List Char) : Bool :=
  isSpacing c || (simpleEscape? c).isSome || ((codeWidth? c).map (startsHex · rest)).getD false

/-- Whether every backslash of some content begins an escape or ends a line. -/
def escapesWritable : List Char → Bool
  | [] => true
  | ['\\'] => false
  | '\\' :: c :: rest => startsEscape c rest && escapesWritable rest
  | _ :: rest => escapesWritable rest

/-- A basic string over several lines. -/
def multilineBasic? (cs : List Char) : Option (Text × List Char) := do
  let (content, rest) ← multilineContent? '"' true [] cs
  if escapesWritable content then
    return (Text.ofChars (← unescape (joinLines (dropFirstBreak content))), rest)
  else none

/-- A literal string over several lines. -/
def multilineLiteral? (cs : List Char) : Option (Text × List Char) := do
  let (content, rest) ← multilineContent? '\'' false [] cs
  return (Text.ofChars (dropFirstBreak content), rest)

/-- A string after its first double quote. -/
def afterDoubleQuote? : List Char → Option (Text × List Char)
  | '"' :: '"' :: rest => multilineBasic? rest
  | cs => basicString? cs

/-- A string after its first single quote. -/
def afterSingleQuote? : List Char → Option (Text × List Char)
  | '\'' :: '\'' :: rest => multilineLiteral? rest
  | cs => literalString? cs

end ColonMachine.Toml
