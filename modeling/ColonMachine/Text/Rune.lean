import ColonMachine.Text.Basic

/-!
# Runes

Reading a text as characters.  A rune is either a Unicode scalar value together with the bytes
that encode it, or one stray byte that starts no well-formed UTF-8 sequence.  `runes` splits any
text into runes without losing a byte, and a stray byte never swallows its neighbours.

A stray byte counts as the replacement character U+FFFD wherever only its code point matters.
-/

namespace ColonMachine

/-- A character of a text, or a byte that belongs to none. -/
inductive Rune where
  /-- A scalar value and the bytes that encode it. -/
  | scalar (code : Nat) (bytes : Text)
  /-- A byte outside every well-formed sequence. -/
  | stray (byte : UInt8)
  deriving Repr, DecidableEq

namespace Rune

/-- The code point that stands for a stray byte. -/
def replacement : Nat := 0xFFFD

/-- The code point of a rune. -/
def code : Rune → Nat
  | scalar c _ => c
  | stray _ => replacement

/-- The bytes a rune was read from. -/
def bytes : Rune → Text
  | scalar _ bs => bs
  | stray b => [b]

/-- Whether a byte continues a sequence begun before it. -/
def isContinuation (b : UInt8) : Bool := 0x80 ≤ b && b ≤ 0xBF

/-- The six payload bits of a continuation byte. -/
def payload (b : UInt8) : Nat := b.toNat % 64

/-- Whether `b1` may follow the lead byte `b0` of a sequence of three.  The narrower ranges keep
out encodings that are longer than needed and the surrogates. -/
def opensThree (b0 b1 : UInt8) : Bool :=
  if b0 == 0xE0 then 0xA0 ≤ b1 && b1 ≤ 0xBF
  else if b0 == 0xED then 0x80 ≤ b1 && b1 ≤ 0x9F
  else isContinuation b1

/-- Whether `b1` may follow the lead byte `b0` of a sequence of four.  The narrower ranges keep
out encodings that are longer than needed and anything past U+10FFFF. -/
def opensFour (b0 b1 : UInt8) : Bool :=
  if b0 == 0xF0 then 0x90 ≤ b1 && b1 ≤ 0xBF
  else if b0 == 0xF4 then 0x80 ≤ b1 && b1 ≤ 0x8F
  else isContinuation b1

/-- The rune at the front of the text `b0 :: rest`. -/
def leading (b0 : UInt8) (rest : Text) : Rune :=
  if b0 < 0x80 then scalar b0.toNat [b0]
  else if 0xC2 ≤ b0 && b0 ≤ 0xDF then
    match rest with
    | b1 :: _ =>
      if isContinuation b1 then scalar (b0.toNat % 32 * 64 + payload b1) [b0, b1] else stray b0
    | [] => stray b0
  else if 0xE0 ≤ b0 && b0 ≤ 0xEF then
    match rest with
    | b1 :: b2 :: _ =>
      if opensThree b0 b1 && isContinuation b2 then
        scalar ((b0.toNat % 16 * 64 + payload b1) * 64 + payload b2) [b0, b1, b2]
      else stray b0
    | _ => stray b0
  else if 0xF0 ≤ b0 && b0 ≤ 0xF4 then
    match rest with
    | b1 :: b2 :: b3 :: _ =>
      if opensFour b0 b1 && isContinuation b2 && isContinuation b3 then
        scalar (((b0.toNat % 8 * 64 + payload b1) * 64 + payload b2) * 64 + payload b3)
          [b0, b1, b2, b3]
      else stray b0
    | _ => stray b0
  else stray b0

/-- The bytes of a scalar value, as UTF-8. -/
def encode (c : Char) : Text := String.utf8EncodeChar c

end Rune

namespace Text

/-- The runes of a text from a point where the next `skip` bytes belong to a rune already read. -/
def runesAfter : (skip : Nat) → Text → List Rune
  | _, [] => []
  | skip + 1, _ :: rest => runesAfter skip rest
  | 0, b :: rest =>
    let r := Rune.leading b rest
    r :: runesAfter (r.bytes.length - 1) rest

/-- The runes of a text, in order. -/
def runes (t : Text) : List Rune := runesAfter 0 t

/-- The text with every stray byte replaced by the replacement character. -/
def scrub (t : Text) : Text :=
  t.runes.flatMap fun
    | .scalar _ bs => bs
    | .stray _ => [0xEF, 0xBF, 0xBD]

/-- The characters of a text, if no byte is stray. -/
def chars? (t : Text) : Option (List Char) :=
  t.runes.mapM fun
    | .scalar c _ => some (Char.ofNat c)
    | .stray _ => none

/-- The text of a list of characters. -/
def ofChars (cs : List Char) : Text := cs.flatMap Rune.encode

end Text

end ColonMachine
