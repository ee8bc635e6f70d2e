import ColonMachine.Input.Source
import Mathlib.Tactic.Common

/-!
# What counts as a word

A word is a non-empty text without separators.  Everything that comes out of a source is a word in
this sense (`Source.isWord_of_nextWord`), whatever bytes went into it, so no name that holds a
separator can ever be typed.

The point that needs care is that separators are runes and not bytes.  A word is cut out of a line
between two separators, and reading the piece again must not find other runes in it than the line
had there.  It does not, because a rune is never read differently when what stands behind it is cut
off (`Rune.leading_of_prefix`); hence any stretch of the runes of a text is the list of runes of its
own bytes (`Text.runes_segment`).
-/

namespace ColonMachine

namespace Rune

/-- The bytes of the rune at the front are a front part of the text. -/
lemma bytes_leading (b : UInt8) (rest : Text) :
    (leading b rest).bytes = b :: rest.take ((leading b rest).bytes.length - 1) := by
  simp only [leading]
  split_ifs
  · rfl
  · rcases rest with _ | ⟨b1, rest⟩
    · rfl
    · dsimp only
      split_ifs <;> rfl
  · rcases rest with _ | ⟨b1, _ | ⟨b2, rest⟩⟩
    · rfl
    · rfl
    · dsimp only
      split_ifs <;> rfl
  · rcases rest with _ | ⟨b1, _ | ⟨b2, _ | ⟨b3, rest⟩⟩⟩
    · rfl
    · rfl
    · rfl
    · dsimp only
      split_ifs <;> rfl
  · rfl

/-- A rune does not depend on what stands behind its own bytes. -/
lemma leading_of_prefix {b : UInt8} {front rest : Text} (hfront : front <+: rest)
    (hlen : (leading b rest).bytes.length ≤ front.length + 1) :
    leading b front = leading b rest := by
  obtain ⟨extra, rfl⟩ := hfront
  -- if `front` ends within the rune, then `hlen` says that the bytes after it do not belong to the
  -- rune
  simp only [leading] at hlen ⊢
  split_ifs at hlen ⊢
  · rfl
  · rcases front with _ | ⟨b1, front⟩
    · rcases extra with _ | ⟨b1, extra⟩
      · rfl
      · by_cases h : isContinuation b1 = true
        · simp [h, bytes] at hlen
        · simp [h]
    · rfl
  · rcases front with _ | ⟨b1, _ | ⟨b2, front⟩⟩
    · rcases extra with _ | ⟨b1, _ | ⟨b2, extra⟩⟩
      · rfl
      · rfl
      · by_cases h : (opensThree b b1 && isContinuation b2) = true
        · simp [h, bytes] at hlen
        · simp [h]
    · rcases extra with _ | ⟨b2, extra⟩
      · rfl
      · by_cases h : (opensThree b b1 && isContinuation b2) = true
        · simp [h, bytes] at hlen
        · simp [h]
    · rfl
  · rcases front with _ | ⟨b1, _ | ⟨b2, _ | ⟨b3, front⟩⟩⟩
    · rcases extra with _ | ⟨b1, _ | ⟨b2, _ | ⟨b3, extra⟩⟩⟩
      · rfl
      · rfl
      · rfl
      · by_cases h : (opensFour b b1 && isContinuation b2 && isContinuation b3) = true
        · simp [h, bytes] at hlen
        · simp [h]
    · rcases extra with _ | ⟨b2, _ | ⟨b3, extra⟩⟩
      · rfl
      · rfl
      · by_cases h : (opensFour b b1 && isContinuation b2 && isContinuation b3) = true
        · simp [h, bytes] at hlen
        · simp [h]
    · rcases extra with _ | ⟨b3, extra⟩
      · rfl
      · by_cases h : (opensFour b b1 && isContinuation b2 && isContinuation b3) = true
        · simp [h, bytes] at hlen
        · simp [h]
    · rfl
  · rfl

end Rune

namespace Text

/-! ## Stretches of runes -/

lemma runesAfter_eq (skip : ℕ) (t : Text) : runesAfter skip t = runes (t.drop skip) := by
  induction t generalizing skip with
  | nil => cases skip <;> rfl
  | cons b rest ih =>
      cases skip with
      | zero => rfl
      | succ skip => simpa [runesAfter] using ih skip

lemma runes_cons (b : UInt8) (rest : Text) :
    runes (b :: rest)
      = Rune.leading b rest :: runes (rest.drop ((Rune.leading b rest).bytes.length - 1)) := by
  rw [← runesAfter_eq]
  rfl

/-- No byte is lost when a text is read as runes. -/
lemma flatMap_bytes_runes (t : Text) : (runes t).flatMap Rune.bytes = t := by
  induction h : t.length using Nat.strongRecOn generalizing t with
  | ind n ih =>
      rcases t with _ | ⟨b, rest⟩
      · rfl
      · rw [runes_cons, List.flatMap_cons, ih _ ?_ _ rfl]
        · have hbytes := Rune.bytes_leading b rest
          generalize (Rune.leading b rest).bytes.length - 1 = n at hbytes ⊢
          rw [hbytes, List.cons_append, List.take_append_drop]
        · simp only [List.length_drop, List.length_cons] at h ⊢
          omega

/-- Cutting a text off after some of its runes leaves these runes. -/
lemma runes_front {t : Text} {front back : List Rune} (h : runes t = front ++ back) :
    runes (front.flatMap Rune.bytes) = front := by
  induction front generalizing t with
  | nil => rfl
  | cons r front ih =>
      rcases t with _ | ⟨b, rest⟩
      · simp [runes, runesAfter] at h
      · rw [runes_cons, List.cons_append, List.cons.injEq] at h
        obtain ⟨rfl, htail⟩ := h
        set n := (Rune.leading b rest).bytes.length - 1 with hn
        have hbytes : (Rune.leading b rest).bytes = b :: rest.take n := Rune.bytes_leading b rest
        have hrest : rest.take n ++ front.flatMap Rune.bytes <+: rest := by
          have hdrop : rest.drop n = front.flatMap Rune.bytes ++ back.flatMap Rune.bytes := by
            rw [← List.flatMap_append, ← htail, flatMap_bytes_runes]
          conv_rhs => rw [← List.take_append_drop n rest, hdrop, ← List.append_assoc]
          exact List.prefix_append _ _
        have hlen : (rest.take n).length = n := by
          have := congrArg List.length hbytes
          simp only [List.length_cons] at this
          omega
        have hlead : Rune.leading b (rest.take n ++ front.flatMap Rune.bytes)
            = Rune.leading b rest := by
          refine Rune.leading_of_prefix hrest ?_
          simp only [hbytes, List.length_append, List.length_cons]
          omega
        rw [List.flatMap_cons, hbytes, List.cons_append, runes_cons, hlead, ← hn,
          List.drop_left' hlen, ih htail]

lemma runes_back {t : Text} {front back : List Rune} (h : runes t = front ++ back) :
    runes (back.flatMap Rune.bytes) = back := by
  induction front generalizing t with
  | nil => rw [List.nil_append] at h; rw [← h, flatMap_bytes_runes]
  | cons r front ih =>
      rcases t with _ | ⟨b, rest⟩
      · simp [runes, runesAfter] at h
      · rw [runes_cons, List.cons_append, List.cons.injEq] at h
        exact ih h.2

/-- **Any stretch of the runes of a text is what its bytes are read as.** -/
lemma runes_segment {t : Text} {front segment back : List Rune}
    (h : runes t = front ++ (segment ++ back)) :
    runes (segment.flatMap Rune.bytes) = segment :=
  runes_front (runes_back h)

/-! ## Words -/

/-- A word: some bytes, and no separator among the runes they are read as. -/
structure IsWord (t : Text) : Prop where
  nonempty : t ≠ []
  unbroken : t.hasSeparator = false

/-- Where the pieces of a list of runes come from: each is a stretch without separators. -/
lemma pieces_spec (sep : ℕ → Bool) (rs : List Rune) :
    (∃ segment back, rs = segment ++ back ∧ (∀ r ∈ segment, sep r.code = false) ∧
      (pieces sep rs).1 = segment.flatMap Rune.bytes) ∧
    ∀ w ∈ (pieces sep rs).2, w ≠ [] ∧ ∃ front segment back, rs = front ++ (segment ++ back) ∧
      (∀ r ∈ segment, sep r.code = false) ∧ w = segment.flatMap Rune.bytes := by
  induction rs with
  | nil => exact ⟨⟨[], [], rfl, by simp, rfl⟩, by simp [pieces]⟩
  | cons r rs ih =>
      obtain ⟨⟨segment, back, hrs, hsep, hfirst⟩, hothers⟩ := ih
      have hlater : ∀ w ∈ (pieces sep rs).2, w ≠ [] ∧ ∃ front segment back,
          r :: rs = front ++ (segment ++ back) ∧ (∀ r ∈ segment, sep r.code = false) ∧
          w = segment.flatMap Rune.bytes := by
        intro w hw
        obtain ⟨hne, front, segment, back, hrs, hrest⟩ := hothers w hw
        exact ⟨hne, r :: front, segment, back, by rw [hrs]; rfl, hrest⟩
      by_cases hr : sep r.code = true
      · simp only [pieces, hr, if_true]
        refine ⟨⟨[], r :: rs, rfl, by simp, rfl⟩, ?_⟩
        intro w hw
        split_ifs at hw with hempty
        · exact hlater w hw
        · rcases List.mem_cons.mp hw with rfl | hw
          · refine ⟨by simpa using hempty, [r], segment, back, by rw [hrs]; rfl, hsep, hfirst⟩
          · exact hlater w hw
      · simp only [pieces, hr, Bool.false_eq_true, if_false]
        refine ⟨⟨r :: segment, back, by rw [hrs]; rfl, ?_, by rw [hfirst]; rfl⟩, hlater⟩
        intro x hx
        rcases List.mem_cons.mp hx with rfl | hx
        · simpa using hr
        · exact hsep x hx

/-- A stretch of a text without separators, if it is not empty, is a word. -/
lemma isWord_of_segment {t w : Text} {front segment back : List Rune}
    (h : runes t = front ++ (segment ++ back))
    (hsep : ∀ r ∈ segment, Rune.isSeparator r.code = false)
    (hw : w = segment.flatMap Rune.bytes) (hne : w ≠ []) : w.IsWord := by
  refine ⟨hne, ?_⟩
  rw [hasSeparator, hw, runes_segment h, List.any_eq_false]
  intro r hr
  simp [hsep r hr]

/-- **The words of a line are words.** -/
lemma isWord_of_mem_words {line w : Text} (h : w ∈ line.words) : w.IsWord := by
  obtain ⟨⟨segment, back, hrs, hsep, hfirst⟩, hothers⟩ :=
    pieces_spec Rune.isSeparator line.runes
  have hlater : w ∈ (pieces Rune.isSeparator line.runes).2 → w.IsWord := by
    intro hw
    obtain ⟨hne, front, segment, back, hrs, hsep, hw⟩ := hothers w hw
    exact isWord_of_segment hrs hsep hw hne
  simp only [words, fields] at h
  split_ifs at h with hempty
  · exact hlater h
  · rcases List.mem_cons.mp h with rfl | h
    · have hrunes : line.runes = [] ++ (segment ++ back) := hrs
      exact isWord_of_segment hrunes hsep hfirst (by simpa using hempty)
    · exact hlater h

end Text

/-! ## What a source gives -/

namespace Source

variable {ε : Type} {hooks : Hooks ε} {src src' : Source} {env env' : ε}

/-- Only words are left of the current line. -/
def Tidy (src : Source) : Prop := ∀ w ∈ src.buffered, w.IsWord

lemma tidy_of_buffer_none (h : src.buffer = none) : src.Tidy := by
  simp [Tidy, buffered, h]

lemma tidy_discard (src : Source) : src.discard.Tidy := by simp [Tidy, buffered, discard]

lemma Tidy.congr (h : src.Tidy) (hbuffer : src'.buffer = src.buffer) : src'.Tidy := by
  simpa [Tidy, buffered, hbuffer] using h

lemma tidy_take (src : Source) (stream : Stream) (line : Text) (rest : List Text) :
    (src.take stream line rest).Tidy :=
  fun _ hw => Text.isWord_of_mem_words hw

lemma tidy_attempt {stream : Stream} (h : src.attempt hooks stream env = .line src' env') :
    src'.Tidy := by
  rw [attempt] at h
  split at h
  · cases h
  · split at h
    · cases h
      exact tidy_take _ _ _ _
    · split at h <;> cases h

lemma tidy_readQueued (hooks : Hooks ε) (queue : List Stream) (env : ε) (hsrc : src.Tidy) :
    (readQueued hooks queue src env).2.1.Tidy := by
  induction queue generalizing src env with
  | nil => exact hsrc.congr rfl
  | cons stream queue ih =>
      simp only [readQueued]
      split
      · next heq => exact tidy_attempt heq
      · exact hsrc.congr rfl
      · exact ih _ (hsrc.congr rfl)

lemma tidy_readLine (hooks : Hooks ε) (env : ε) (hsrc : src.Tidy) :
    (src.readLine hooks env).2.1.Tidy := by
  rw [readLine]
  split
  · exact tidy_readQueued hooks _ _ hsrc
  · split
    · next heq => exact tidy_attempt heq
    · exact hsrc
    · exact tidy_readQueued hooks _ _ hsrc

lemma tidy_popWord (hsrc : src.Tidy) :
    src.popWord.2.Tidy ∧ ∀ w, src.popWord.1 = some w → w.IsWord := by
  rw [popWord]
  split
  · next word words hbuffer =>
    simp only [Tidy, buffered, hbuffer, Option.getD_some, List.mem_cons] at hsrc
    refine ⟨fun w hw => hsrc w (Or.inr hw), ?_⟩
    rintro w ⟨⟩
    exact hsrc _ (Or.inl rfl)
  · exact ⟨tidy_of_buffer_none rfl, by simp⟩
  · exact ⟨tidy_of_buffer_none rfl, by simp⟩

lemma tidy_nextWord (hsrc : src.Tidy) : (src.nextWord hooks env).2.1.Tidy := by
  have hline := tidy_readLine hooks env hsrc
  rw [nextWord]
  split
  · generalize src.readLine hooks env = read at hline
    obtain ⟨_ | failure, src', env'⟩ := read
    · exact (tidy_popWord hline).1
    · exact hline
  · exact (tidy_popWord hsrc).1

/-- **Whatever a tidy source gives is a word.** -/
lemma isWord_of_nextWord {w : Text} (hsrc : src.Tidy)
    (h : (src.nextWord hooks env).1 = .ok (some w)) : w.IsWord := by
  have hline := tidy_readLine hooks env hsrc
  rw [nextWord] at h
  split at h
  · generalize src.readLine hooks env = read at h hline
    obtain ⟨_ | failure, src', env'⟩ := read
    · exact (tidy_popWord hline).2 w (Except.ok.inj h)
    · cases h
  · exact (tidy_popWord hsrc).2 w (Except.ok.inj h)

end Source

end ColonMachine
