import ColonMachine.Text.Quoted

/-!
# Log records

A record is a message with, perhaps, the place in the input it belongs to.  It is written either
as one JSON object on a line, for programs, or as a coloured line, for people.
-/

namespace ColonMachine.Log

/-- A message and the place it belongs to; an empty place is none. -/
structure Record where
  /-- The message. -/
  message : Text
  /-- The place in the input. -/
  place : Text := []

/-! ## As JSON -/

/-- One rune inside a JSON string.  A stray byte becomes the replacement character. -/
def escapeJson : Rune → Text
  | .stray _ => utf8 "\\ufffd"
  | .scalar c bytes =>
    if c == 34 || c == 92 then 92 :: bytes
    else match c with
      | 8 => utf8 "\\b"
      | 9 => utf8 "\\t"
      | 10 => utf8 "\\n"
      | 12 => utf8 "\\f"
      | 13 => utf8 "\\r"
      | _ => if c < 0x20 || c == 0x7F then utf8 "\\u" ++ Text.hex 4 c else bytes

/-- A text as a JSON string. -/
def jsonString (t : Text) : Text := [34] ++ t.runes.flatMap escapeJson ++ [34]

/-- A field of a JSON object, left out if its value is empty. -/
def jsonField (name : String) (value : Text) : List Text :=
  if value.isEmpty then [] else [jsonString (utf8 name) ++ utf8 ":" ++ jsonString value]

/-- A record as a JSON object on a line. -/
def Record.json (r : Record) : Text :=
  let fields := jsonField "level" (utf8 "debug") ++ jsonField "at" r.place ++
    jsonField "message" r.message
  utf8 "\x7b" ++ Text.join (utf8 ",") fields ++ utf8 "\x7d\n"

/-! ## For people -/

/-- A text in a colour of the terminal. -/
def colored (color : String) (t : Text) : Text :=
  utf8 "\x1b[" ++ utf8 color ++ utf8 "m" ++ t ++ utf8 "\x1b[0m"

/-- Whether a value has to be quoted to be told from its surroundings. -/
def needsQuotes (t : Text) : Bool :=
  t.any fun b => b < 0x20 || 0x7E < b || b == 32 || b == 92 || b == 34

/-- A record as a coloured line, at the time of day `clock`. -/
def Record.line (clock : Text) (r : Record) : Text :=
  let message := r.message.scrub
  let place := r.place.scrub
  let parts := [colored "90" clock, utf8 "DBG"] ++
    (if message.isEmpty then [] else [message]) ++
    (if place.isEmpty then []
      else [colored "36" (utf8 "at=") ++ (if needsQuotes place then place.quote else place)])
  Text.join [Text.space] parts ++ [Text.newline]

end ColonMachine.Log
