import ColonMachine.Proofs.Vocabulary
import ColonMachine.Text.Decimal
import ColonMachine.Text.Quoted
import Mathlib.Data.Int.Notation
import Mathlib.Tactic.IntervalCases

/-!
# What is written can be read

Words that are written on a line with single spaces between them are the words of that line
(`words_spaced`), and the decimal form of a number is a word that is read as that number
(`readCell_ofInt`).

For the first, a byte below 128 is a rune of its own wherever it stands (`runes_append_ascii`): no
rune before it can reach over it, because all bytes of a rune but the first are above 127.  So a
space or a line break ends a word, whatever bytes the word is made of.
-/

namespace ColonMachine

namespace Rune

lemma high_of_isContinuation {b : UInt8} (h : isContinuation b = true) : 0x80 ≤ b := by
  simp only [isContinuation, Bool.and_eq_true, decide_eq_true_eq] at h
  exact h.1

lemma high_of_opensThree {b0 b1 : UInt8} (h : opensThree b0 b1 = true) : 0x80 ≤ b1 := by
  rw [opensThree] at h
  split_ifs at h
  · simp only [Bool.and_eq_true, decide_eq_true_eq] at h
    exact UInt8.le_trans (by decide) h.1
  · simp only [Bool.and_eq_true, decide_eq_true_eq] at h
    exact h.1
  · exact high_of_isContinuation h

lemma high_of_opensFour {b0 b1 : UInt8} (h : opensFour b0 b1 = true) : 0x80 ≤ b1 := by
  rw [opensFour] at h
  split_ifs at h
  · simp only [Bool.and_eq_true, decide_eq_true_eq] at h
    exact UInt8.le_trans (by decide) h.1
  · simp only [Bool.and_eq_true, decide_eq_true_eq] at h
    exact h.1
  · exact high_of_isContinuation h

/-- All bytes of a rune but the first are above 127. -/
lemma high_of_mem_leading {b x : UInt8} {rest : Text} (hx : x ∈ (leading b rest).bytes.tail) :
    0x80 ≤ x := by
  simp only [leading] at hx
  split_ifs at hx
  · simp [bytes] at hx
  · rcases rest with _ | ⟨b1, rest⟩
    · simp [bytes] at hx
    · dsimp only at hx
      split_ifs at hx with h1
      · simp only [bytes, List.tail_cons, List.mem_singleton] at hx
        rw [hx]
        exact high_of_isContinuation h1
      · simp [bytes] at hx
  · rcases rest with _ | ⟨b1, _ | ⟨b2, rest⟩⟩
    · simp [bytes] at hx
    · simp [bytes] at hx
    · dsimp only at hx
      split_ifs at hx with h
      · rw [Bool.and_eq_true] at h
        simp only [bytes, List.tail_cons, List.mem_cons, List.not_mem_nil, or_false] at hx
        rcases hx with rfl | rfl
        · exact high_of_opensThree h.1
        · exact high_of_isContinuation h.2
      · simp [bytes] at hx
  · rcases rest with _ | ⟨b1, _ | ⟨b2, _ | ⟨b3, rest⟩⟩⟩
    · simp [bytes] at hx
    · simp [bytes] at hx
    · simp [bytes] at hx
    · dsimp only at hx
      split_ifs at hx with h
      · simp only [Bool.and_eq_true] at h
        simp only [bytes, List.tail_cons, List.mem_cons, List.not_mem_nil, or_false] at hx
        rcases hx with rfl | rfl | rfl
        · exact high_of_opensFour h.1.1
        · exact high_of_isContinuation h.1.2
        · exact high_of_isContinuation h.2
      · simp [bytes] at hx
  · simp [bytes] at hx

lemma leading_ascii {b : UInt8} (hb : b < 0x80) (rest : Text) :
    leading b rest = scalar b.toNat [b] := by
  simp only [leading, if_pos hb]

/-- A rune does not reach over a byte below 128. -/
lemma leading_append_ascii (c : UInt8) (front : Text) {b : UInt8} (hb : b < 0x80) (rest : Text) :
    leading c (front ++ b :: rest) = leading c front := by
  symm
  refine leading_of_prefix (List.prefix_append _ _) ?_
  by_contra hlong
  have hbytes := bytes_leading c (front ++ b :: rest)
  set n := (leading c (front ++ b :: rest)).bytes.length - 1 with hn
  have hmem : b ∈ (leading c (front ++ b :: rest)).bytes.tail := by
    rw [hbytes, List.tail_cons, List.mem_take_iff_getElem]
    exact ⟨front.length, by simp; omega, by simp⟩
  exact absurd (high_of_mem_leading hmem) (UInt8.not_le.mpr hb)

end Rune

namespace Text

variable {t w : Text} {b : UInt8}

/-- A byte below 128 divides the runes before it from those behind it. -/
lemma runes_append_ascii (t : Text) (hb : b < 0x80) (rest : Text) :
    runes (t ++ b :: rest) = runes t ++ .scalar b.toNat [b] :: runes rest := by
  induction h : t.length using Nat.strongRecOn generalizing t with
  | ind n ih =>
      rcases t with _ | ⟨c, t⟩
      · rw [List.nil_append, runes_cons, Rune.leading_ascii hb]
        rfl
      · rw [List.cons_append, runes_cons, runes_cons, Rune.leading_append_ascii c t hb]
        have hbytes := Rune.bytes_leading c t
        set k := (Rune.leading c t).bytes.length - 1 with hk
        have hlen : k ≤ t.length := by
          have := congrArg List.length hbytes
          simp only [List.length_cons, List.length_take] at this
          omega
        rw [List.drop_append_of_le_length hlen, ih _ ?_ _ rfl, List.cons_append]
        simp only [List.length_cons, List.length_drop] at h ⊢
        omega

/-! ## Words on a line -/

lemma pieces_append (sep : ℕ → Bool) {r : Rune} (hr : sep r.code = true) (rs rest : List Rune) :
    pieces sep (rs ++ r :: rest) = ((pieces sep rs).1, (pieces sep rs).2 ++
      if (pieces sep rest).1.isEmpty then (pieces sep rest).2
      else (pieces sep rest).1 :: (pieces sep rest).2) := by
  induction rs with
  | nil => simp [pieces, hr]
  | cons r' rs ih =>
      simp only [List.cons_append, pieces, ih]
      split_ifs <;> rfl

lemma pieces_unbroken (sep : ℕ → Bool) {rs : List Rune} (hrs : ∀ r ∈ rs, sep r.code = false) :
    pieces sep rs = (rs.flatMap Rune.bytes, []) := by
  induction rs with
  | nil => rfl
  | cons r rs ih =>
      simp [pieces, hrs r List.mem_cons_self, ih fun r hr => hrs r (List.mem_cons_of_mem _ hr)]

/-- A separator divides the fields before it from those behind it. -/
lemma fields_append {sep : ℕ → Bool} (t : Text) (hb : b < 0x80) (hsep : sep b.toNat = true)
    (rest : Text) :
    fields sep (t ++ b :: rest) = fields sep t ++ fields sep rest := by
  have hpieces := pieces_append sep (r := .scalar b.toNat [b]) hsep t.runes rest.runes
  simp only [fields]
  rw [runes_append_ascii t hb rest, hpieces]
  split_ifs <;> rfl

lemma fields_unbroken {sep : ℕ → Bool} (hne : t ≠ []) (ht : ∀ r ∈ t.runes, sep r.code = false) :
    fields sep t = [t] := by
  simp only [fields]
  rw [pieces_unbroken _ ht, flatMap_bytes_runes, List.isEmpty_eq_false_iff.mpr hne]
  rfl

/-- A separator divides the words before it from those behind it. -/
lemma words_append (t : Text) (hb : b < 0x80) (hsep : Rune.isSeparator b.toNat = true)
    (rest : Text) : words (t ++ b :: rest) = words t ++ words rest :=
  fields_append t hb hsep rest

lemma IsWord.words_eq (hw : w.IsWord) : words w = [w] :=
  fields_unbroken hw.nonempty (by simpa [hasSeparator] using hw.unbroken)

/-- Words with single spaces between them and a line break behind them. -/
def spaced (w : Text) (ws : List Text) : Text := w ++ ws.flatMap (space :: ·) ++ [newline]

lemma spaced_cons (w v : Text) (ws : List Text) :
    spaced w (v :: ws) = w ++ space :: spaced v ws := by
  simp [spaced]

/-- **Words that are written on a line are the words of the line.** -/
lemma words_spaced {ws : List Text} (hw : w.IsWord) (hws : ∀ v ∈ ws, v.IsWord) :
    words (spaced w ws) = w :: ws := by
  induction ws generalizing w with
  | nil =>
      rw [spaced, List.flatMap_nil, List.append_nil, words_append w (by decide) (by decide),
        hw.words_eq]
      rfl
  | cons v ws ih =>
      rw [spaced_cons, words_append w (by decide) (by decide), hw.words_eq,
        ih (hws v List.mem_cons_self) fun u hu => hws u (List.mem_cons_of_mem _ hu)]
      rfl

lemma lines_append_newline (h : newline ∉ t) (rest : Text) :
    lines (t ++ newline :: rest) = (t ++ [newline]) :: lines rest := by
  induction t with
  | nil => rfl
  | cons b t ih =>
      rw [List.mem_cons, not_or] at h
      have hb : (b == newline) = false := by simpa using Ne.symm h.1
      simp [lines, hb, ih h.2]

lemma lines_of_notMem (h : newline ∉ t) (hne : t ≠ []) : lines t = [t] := by
  induction t with
  | nil => exact absurd rfl hne
  | cons b t ih =>
      rw [List.mem_cons, not_or] at h
      have hb : (b == newline) = false := by simpa using Ne.symm h.1
      cases t with
      | nil => simp [lines, hb]
      | cons b' t => rw [lines, if_neg (by simp [hb]), ih h.2 (List.cons_ne_nil _ _)]

lemma IsWord.newline_notMem (hw : w.IsWord) : newline ∉ w := by
  intro hmem
  obtain ⟨front, back, rfl⟩ := List.append_of_mem hmem
  have hbreak := hw.unbroken
  rw [hasSeparator, runes_append_ascii front (by decide) back, List.any_append, List.any_cons,
    show Rune.isSeparator (Rune.code (.scalar newline.toNat [newline])) = true by decide] at hbreak
  simp at hbreak

lemma lines_spaced {ws : List Text} (hw : w.IsWord) (hws : ∀ v ∈ ws, v.IsWord) :
    lines (spaced w ws) = [spaced w ws] := by
  refine lines_append_newline ?_ []
  simp only [List.mem_append, List.mem_flatMap, List.mem_cons, not_or, not_exists, not_and]
  refine ⟨hw.newline_notMem, fun v hv => ⟨by decide, (hws v hv).newline_notMem⟩⟩

lemma IsWord.asName (hw : w.IsWord) : w.asName = w := by
  rw [Text.asName, if_neg]
  simp [hw.nonempty, hw.unbroken]

/-- A text of bytes below 128 that are no separators is a word. -/
lemma isWord_of_ascii (hne : t ≠ [])
    (h : ∀ b ∈ t, b < 0x80 ∧ Rune.isSeparator b.toNat = false) : t.IsWord := by
  refine ⟨hne, ?_⟩
  clear hne
  induction t with
  | nil => rfl
  | cons b t ih =>
      obtain ⟨hb, hsep⟩ := h b List.mem_cons_self
      have hrunes := runes_append_ascii [] hb t
      rw [List.nil_append] at hrunes
      have htail := ih fun b hb => h b (List.mem_cons_of_mem _ hb)
      rw [hasSeparator] at htail ⊢
      rw [hrunes]
      simp only [runes, runesAfter, List.nil_append, List.any_cons, Rune.code, hsep, Bool.false_or]
      exact htail

/-! ## Numbers -/

lemma digitValue?_digit {d : ℕ} (hd : d < 10) : digitValue? (digit d) = some d := by
  interval_cases d <;> rfl

lemma readDigits_append {base max n k : ℕ} {grouped : Bool} {front : Text}
    (h : readDigits base max grouped n front = .ok k) (back : Text) :
    readDigits base max grouped n (front ++ back) = readDigits base max grouped k back := by
  induction front generalizing n with
  | nil =>
      cases h
      rfl
  | cons b front ih =>
      rw [List.cons_append, readDigits]
      rw [readDigits] at h
      split_ifs at h ⊢
      · exact ih h
      · cases hdigit : digitValue? b with
        | none => simp [hdigit] at h
        | some d =>
            simp only [hdigit] at h ⊢
            split_ifs at h ⊢
            exact ih h

/-- The digits of a number that is not too large are read as that number. -/
lemma readDigits_ofNat {max n : ℕ} (hn : n ≤ max) :
    readDigits 10 max false 0 (ofNat n) = .ok n := by
  induction n using Nat.strongRecOn with
  | ind n ih =>
      have hone : ∀ k d, d < 10 → k * 10 + d ≤ max →
          readDigits 10 max false k [digit d] = .ok (k * 10 + d) := by
        intro k d hd hmax
        simp [readDigits, digitValue?_digit hd, Nat.not_le.mpr hd, Nat.not_lt.mpr hmax]
      rw [ofNat]
      split_ifs with hsmall
      · simpa using hone 0 n hsmall (by omega)
      · rw [readDigits_append (ih (n / 10) (by omega) (by omega)),
          hone _ _ (Nat.mod_lt _ (by decide)) (by omega)]
        congr 1
        omega

lemma mem_ofNat {n : ℕ} (h : b ∈ ofNat n) : ∃ d < 10, b = digit d := by
  induction n using Nat.strongRecOn with
  | ind n ih =>
      rw [ofNat] at h
      split_ifs at h with hsmall
      · exact ⟨n, hsmall, List.mem_singleton.mp h⟩
      · rcases List.mem_append.mp h with h | h
        · exact ih (n / 10) (by omega) h
        · exact ⟨n % 10, Nat.mod_lt _ (by decide), List.mem_singleton.mp h⟩

lemma ofNat_ne_nil (n : ℕ) : ofNat n ≠ [] := by
  rw [ofNat]
  split_ifs <;> simp

lemma splitSign_ofNat (n : ℕ) : splitSign (ofNat n) = (false, ofNat n) := by
  rcases hdigits : ofNat n with _ | ⟨b, rest⟩
  · exact absurd hdigits (ofNat_ne_nil n)
  · obtain ⟨d, hd, rfl⟩ := mem_ofNat (b := b) (n := n) (by simp [hdigits])
    interval_cases d <;> rfl

lemma readNat_ofNat (bits : ℕ) {n : ℕ} (hn : n < 2 ^ bits) :
    readNat .ten bits (ofNat n) = .ok n := by
  have hne : (ofNat n).isEmpty = false := by simpa using ofNat_ne_nil n
  rw [readNat, hne]
  exact readDigits_ofNat (Nat.le_sub_one_of_lt hn)

/-- **The decimal form of a number is read as that number.** -/
lemma readInt_ofInt {bits : ℕ} (hbits : 0 < bits) {n : ℤ} (hlow : -2 ^ (bits - 1) ≤ n)
    (hhigh : n < 2 ^ (bits - 1)) : readInt .ten bits (ofInt n) = .ok n := by
  have hdouble : 2 ^ bits = 2 * 2 ^ (bits - 1) := by
    rw [← Nat.pow_succ', Nat.succ_eq_add_one, Nat.sub_add_cancel hbits]
  have hcast : ((2 ^ (bits - 1) : ℕ) : ℤ) = 2 ^ (bits - 1) := by simp
  rw [← hcast] at hlow hhigh
  cases n with
  | ofNat n =>
      have hn : n < 2 ^ (bits - 1) := Int.ofNat_lt.mp hhigh
      have hread := readNat_ofNat bits (n := n) (by omega)
      simp only [readInt, ofInt, splitSign_ofNat, hread]
      exact if_neg (Nat.not_le.mpr hn)
  | negSucc n =>
      have hn : n + 1 ≤ 2 ^ (bits - 1) := by omega
      have hread := readNat_ofNat bits (n := n + 1) (by omega)
      simp only [readInt, ofInt, splitSign, hread]
      exact if_neg (Nat.not_lt.mpr hn)

lemma readCell_ofInt {n : ℤ} (hlow : -2 ^ 31 ≤ n) (hhigh : n < 2 ^ 31) :
    readCell (ofInt n) = .ok (Int32.ofInt n) := by
  rw [readCell, readInt_ofInt (by decide) hlow hhigh]
  rfl

lemma isWord_ofInt (n : ℤ) : (ofInt n).IsWord := by
  have hdigit : ∀ d < 10, digit d < 0x80 ∧ Rune.isSeparator (digit d).toNat = false := by decide
  have hofNat : ∀ n, ∀ b ∈ ofNat n, b < 0x80 ∧ Rune.isSeparator b.toNat = false := by
    intro n b hb
    obtain ⟨d, hd, rfl⟩ := mem_ofNat hb
    exact hdigit d hd
  cases n with
  | ofNat n => exact isWord_of_ascii (ofNat_ne_nil n) (hofNat n)
  | negSucc n =>
      refine isWord_of_ascii (List.cons_ne_nil _ _) ?_
      intro b hb
      rcases List.mem_cons.mp hb with rfl | hb
      · decide
      · exact hofNat _ b hb

end Text

end ColonMachine
