/-!
# Texts

A text is a string of bytes.  Program input, word names, output and diagnostics are all texts:
nothing in the machine requires them to be well-formed UTF-8, so a byte that belongs to no
character passes through unchanged.

`utf8` gives the text of a string literal.  The operations below are the few that every other
module needs: joining, trimming at the end, cutting at a mark, and splitting into lines.
-/

namespace ColonMachine

/-- A string of bytes. -/
abbrev Text := List UInt8

/-- The bytes of a string, as UTF-8. -/
def utf8 (s : String) : Text := s.toUTF8.data.toList

namespace Text

/-- The line break byte. -/
def newline : UInt8 := 10

/-- The carriage return byte. -/
def carriageReturn : UInt8 := 13

/-- The ASCII space. -/
def space : UInt8 := 32

/-! ## Joining and repeating -/

/-- The texts one after the other, with `sep` between neighbours. -/
def join (sep : Text) : List Text → Text
  | [] => []
  | [t] => t
  | t :: rest => t ++ sep ++ join sep rest

/-- The text `t`, `n` times over. -/
def times (n : Nat) (t : Text) : Text := (List.replicate n t).flatten

/-- Pads with spaces on the left up to `width` bytes. -/
def padLeft (width : Nat) (t : Text) : Text := List.replicate (width - t.length) space ++ t

/-- Pads with spaces on the right up to `width` bytes. -/
def padRight (width : Nat) (t : Text) : Text := t ++ List.replicate (width - t.length) space

/-! ## Trimming and cutting -/

/-- Removes the longest end made of bytes satisfying `drop`. -/
def trimEnd (drop : UInt8 → Bool) (t : Text) : Text := (t.reverse.dropWhile drop).reverse

/-- Removes every trailing carriage return and line break. -/
def trimLineEnd : Text → Text := trimEnd fun b => b == carriageReturn || b == newline

/-- What stands before and after the first occurrence of `mark`, if it occurs. -/
def cut? : Text → (mark : Text) → Option (Text × Text)
  | [], mark => (mark.isPrefixOf? []).map fun after => ([], after)
  | b :: rest, mark =>
    match mark.isPrefixOf? (b :: rest) with
    | some after => some ([], after)
    | none => (cut? rest mark).map fun parts => (b :: parts.1, parts.2)

/-- What stands before the first occurrence of `mark`, or all of the text. -/
def before (t mark : Text) : Text := ((t.cut? mark).map (·.1)).getD t

/-- The text after `lead`, if it starts with it; otherwise the text itself. -/
def dropLead (t lead : Text) : Text := (lead.isPrefixOf? t).getD t

/-- Splits at every occurrence of the byte `b`: one piece more than there are occurrences. -/
def splitAt (b : UInt8) : Text → List Text
  | [] => [[]]
  | c :: rest =>
    if c == b then [] :: splitAt b rest
    else match splitAt b rest with
      | [] => [[c]]
      | piece :: pieces => (c :: piece) :: pieces

/-! ## Lines -/

/-- The lines of a text, each with the line break that ends it; the last one may lack it.  No
line is empty, and together they are the text. -/
def lines : Text → List Text
  | [] => []
  | b :: rest =>
    if b == newline then [b] :: lines rest
    else match lines rest with
      | [] => [[b]]
      | line :: others => (b :: line) :: others

/-- Induction over the lines of a text, from the first on. -/
@[elab_as_elim]
theorem lineInduction {motive : Text → Prop} (last : ∀ t, newline ∉ t → motive t)
    (line : ∀ line rest, newline ∉ line → motive rest → motive (line ++ newline :: rest))
    (t : Text) : motive t := by
  induction h : t.length using Nat.strongRecOn generalizing t with
  | ind n ih =>
    by_cases hbreak : newline ∈ t
    · obtain ⟨front, rest, rfl, hfront⟩ := List.eq_append_cons_of_mem hbreak
      refine line front rest hfront (ih rest.length ?_ rest rfl)
      simp only [List.length_append, List.length_cons] at h
      omega
    · exact last t hbreak

/-- The lines of a text put back together are the text. -/
theorem flatten_lines (t : Text) : (lines t).flatten = t := by
  induction t with
  | nil => rfl
  | cons b rest ih =>
    unfold lines
    split
    · simp [ih]
    · split
      · rename_i h; rw [h] at ih; simp_all
      · rename_i h; rw [h] at ih; simp_all

end Text

end ColonMachine
