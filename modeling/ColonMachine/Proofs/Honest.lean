import ColonMachine.Proofs.Sinks

/-!
# Output that may fail

A device is **honest** if it fails whenever it does not take all bytes.  What is behind an honest
outlet may fail at any time and any number of times.  Throughout, `P` is what is known of all its
failures; with `Failure.Genuine` for it, none of them is taken for the end of the input.

* A write adds to the content of an outlet all of the piece if it succeeds, and the beginning of the
  piece whatever happens; a flush adds nothing, and if it succeeds everything has arrived at the far
  end (`write_of_honest`, `flush_of_honest`, at each level).
* `Console.Holds (Outlet.Kept P) c₀ c` says that every outlet in use has kept all that was said
  since `c₀`, and `Console.Holds (Outlet.Partly P) c₀ c` that every one has kept the beginning of
  it.  The second is what is left after a write has failed.
-/

namespace ColonMachine

/-- The failure is not taken for the end of the input. -/
def Failure.Genuine (f : Failure) : Prop := .endOfInput ∉ f.chain

variable {P : Failure → Prop}

/-- What a write has to do with how much was taken of the piece. -/
structure Written.Accounts (P : Failure → Prop) (w : Written) (piece taken : Text) : Prop where
  part : taken <+: piece
  whole : w.failure = none → taken = piece ∧ w.count = piece.length
  fails : ∀ f ∈ w.failure, P f

/-- Some bytes have been taken of a piece, and then what is said of the rest was taken. -/
lemma Written.Accounts.after {more : Written} {piece taken : Text} {n : ℕ}
    (h : more.Accounts P (piece.drop n) taken) (hn : n ≤ piece.length) :
    (⟨n + more.count, more.failure⟩ : Written).Accounts P piece (piece.take n ++ taken) where
  part := by
    conv_rhs => rw [← List.take_append_drop n piece]
    exact (List.prefix_append_right_inj _).mpr h.part
  whole := by
    intro hnone
    obtain ⟨htaken, hcount⟩ := h.whole hnone
    rw [htaken, List.take_append_drop]
    exact ⟨rfl, by simp only [hcount, List.length_drop]; omega⟩
  fails := h.fails

/-! ## Devices and buffers -/

/-- A device that fails if it does not take all bytes. -/
structure Device.Honest (P : Failure → Prop) (d : Device) : Prop where
  takes : ∀ events bytes, (d.onWrite events bytes).failure = none →
    bytes.length ≤ (d.onWrite events bytes).count
  fails : ∀ events bytes, ∀ f ∈ (d.onWrite events bytes).failure, P f
  flushes : ∀ events, ∀ f ∈ d.onFlush events, P f

namespace Device

variable {d : Device}

lemma count_write_le (d : Device) (bytes : Text) : (d.write bytes).1.count ≤ bytes.length :=
  Nat.min_le_right _ _

lemma write_of_honest (h : d.Honest P) (bytes : Text) :
    (d.write bytes).2.Honest P ∧
      (d.write bytes).1.Accounts P bytes (bytes.take (d.write bytes).1.count) ∧
      (d.write bytes).2.received = d.received ++ bytes.take (d.write bytes).1.count := by
  refine ⟨⟨h.takes, h.fails, h.flushes⟩, ⟨List.take_prefix _ _, ?_, h.fails d.events bytes⟩, ?_⟩
  · intro hnone
    have hcount : (d.write bytes).1.count = bytes.length := Nat.min_eq_right (h.takes _ _ hnone)
    rw [hcount]
    exact ⟨List.take_length, rfl⟩
  · simp only [write, received, List.reverse_cons, List.flatMap_append, List.flatMap_cons,
      List.flatMap_nil, List.append_nil]
    congr 1
    split_ifs with hall
    · simp only [Bool.and_eq_true, beq_iff_eq] at hall
      simp only [Event.bytes, hall.1, List.take_length]
    · rfl

lemma flush_of_honest (h : d.Honest P) :
    d.flush.2.Honest P ∧ (∀ f ∈ d.flush.1, P f) ∧ d.flush.2.received = d.received :=
  ⟨⟨h.takes, h.fails, h.flushes⟩, h.flushes d.events, by simp [flush, received, Event.bytes]⟩

/-- A device with a limit is honest, unless it is silent about it.  It fails only by being full. -/
lemma honest_limited (limit : Option ℕ) (hfull : P full) : (limited limit false none).Honest P where
  takes := by
    intro events bytes hnone
    cases limit with
    | none => exact Nat.le_refl _
    | some limit =>
        by_cases hfits : taken events + bytes.length ≤ limit
        · simp [limited, hfits]
        · simp [limited, hfits] at hnone
  fails := by
    intro events bytes f hf
    cases limit with
    | none => cases hf
    | some limit =>
        by_cases hfits : taken events + bytes.length ≤ limit
        · simp [limited, hfits] at hf
        · simp only [limited, hfits, if_false, Bool.false_eq_true] at hf
          cases hf
          exact hfull
  flushes := by simp [limited]

end Device

/-- A buffer before an honest device. -/
structure Buffer.Honest (P : Failure → Prop) (b : Buffer) : Prop where
  device : b.device.Honest P
  failed : ∀ f ∈ b.failed, P f

namespace Buffer

variable {b : Buffer}

/-- What a flush does to a buffer, whether it succeeds or not. -/
lemma flush_of_honest (h : b.Honest P) :
    b.flush.2.Honest P ∧ (∀ f ∈ b.flush.1, P f) ∧ b.flush.2.content = b.content ∧
      b.device.received <+: b.flush.2.device.received := by
  rw [flush]
  cases hfailed : b.failed with
  | some failure =>
      exact ⟨h, fun f hf => h.failed f (by rw [hfailed]; exact hf), rfl, List.prefix_rfl⟩
  | none =>
      dsimp only
      by_cases hempty : b.pending.isEmpty = true
      · rw [if_pos hempty]
        exact ⟨h, by simp, rfl, List.prefix_rfl⟩
      rw [if_neg hempty]
      obtain ⟨hdevice, haccounts, hreceived⟩ := Device.write_of_honest h.device b.pending
      generalize b.device.write b.pending = written at hdevice haccounts hreceived
      obtain ⟨⟨count, failure?⟩, d⟩ := written
      dsimp only at hdevice haccounts hreceived ⊢
      have hcontent : d.received ++ b.pending.drop count = b.content := by
        rw [hreceived, content, List.append_assoc, List.take_append_drop]
      have hgrows : b.device.received <+: d.received := by
        rw [hreceived]
        exact List.prefix_append _ _
      cases failure? with
      | some failure =>
          have hfails : ∀ f ∈ some failure, P f := haccounts.fails
          exact ⟨⟨hdevice, hfails⟩, hfails, hcontent, hgrows⟩
      | none =>
          -- an honest device has taken everything
          obtain ⟨-, hcount⟩ := haccounts.whole rfl
          dsimp only at hcount
          rw [if_neg (by omega)]
          refine ⟨⟨hdevice, by simp⟩, by simp, ?_, hgrows⟩
          simpa [hcount, content] using hcontent

/-- The induction is that of the definition: over how much there is to pass on. -/
lemma write_of_honest (h : b.Honest P) (manner : Manner) (piece : Text) :
    (b.write manner piece).2.Honest P ∧ ∃ taken, (b.write manner piece).1.Accounts P piece taken ∧
      (b.write manner piece).2.content = b.content ++ taken := by
  fun_induction Buffer.write manner piece b with
  | case1 piece b failure hfailed =>
      refine ⟨h, [], ⟨List.nil_prefix, by simp, fun f hf => h.failed f ?_⟩,
        (List.append_nil _).symm⟩
      rw [hfailed]
      exact hf
  | case2 piece b hfailed hfits =>
      refine ⟨⟨h.device, h.failed⟩, piece, ⟨List.prefix_rfl, fun _ => ⟨rfl, rfl⟩, by simp⟩, ?_⟩
      simp [content]
  | case3 piece b hfailed hfits hdirect written d hwrite b' hzero =>
      obtain ⟨hdevice, haccounts, hreceived⟩ := Device.write_of_honest h.device piece
      rw [hwrite] at hdevice haccounts hreceived
      dsimp only at hdevice haccounts hreceived
      have hempty : b.pending = [] := by
        simp only [Bool.and_eq_true, List.isEmpty_iff] at hdirect
        exact hdirect.2
      refine ⟨⟨hdevice, haccounts.fails⟩, [],
        ⟨List.nil_prefix, fun hnone => ?_, haccounts.fails⟩, ?_⟩
      · have hcount := (haccounts.whole hnone).2
        omega
      · simp [b', content, hreceived, hzero, hempty]
  | case4 piece b hfailed hfits hdirect written d hwrite b' hsome more b'' hrest ih =>
      obtain ⟨hdevice, haccounts, hreceived⟩ := Device.write_of_honest h.device piece
      have hcount := Device.count_write_le b.device piece
      rw [hwrite] at hdevice haccounts hreceived hcount
      dsimp only at hdevice haccounts hreceived hcount
      have hempty : b.pending = [] := by
        simp only [Bool.and_eq_true, List.isEmpty_iff] at hdirect
        exact hdirect.2
      obtain ⟨hb'', taken, hmore, hcontent⟩ := ih ⟨hdevice, haccounts.fails⟩
      rw [hrest] at hb'' hmore hcontent
      refine ⟨hb'', _, hmore.after hcount, hcontent.trans ?_⟩
      simp [b', content, hreceived, hempty]
  | case5 piece b hfailed hfits hdirect room failure b' hflush =>
      obtain ⟨hb', hfails, hcontent, -⟩ := flush_of_honest
        (b := { b with pending := b.pending ++ piece.take room }) ⟨h.device, h.failed⟩
      rw [hflush] at hb' hfails hcontent
      refine ⟨hb', piece.take room, ⟨List.take_prefix _ _, by simp, hfails⟩, hcontent.trans ?_⟩
      simp [content]
  | case6 piece b hfailed hfits hdirect room b' hflush more b'' hrest ih =>
      obtain ⟨hb', -, hcontent, -⟩ := flush_of_honest
        (b := { b with pending := b.pending ++ piece.take room }) ⟨h.device, h.failed⟩
      rw [hflush] at hb' hcontent
      obtain ⟨hb'', taken, hmore, hcontent'⟩ := ih hb'
      rw [hrest] at hb'' hmore hcontent'
      refine ⟨hb'', _, hmore.after (by omega), hcontent'.trans ?_⟩
      dsimp only at hcontent
      rw [hcontent]
      simp [content]

end Buffer

/-! ## Outlets -/

namespace Outlet

/-- What is behind the outlet is honest. -/
def Honest (P : Failure → Prop) : Outlet → Prop
  | memory _ | discard => True
  | direct device => device.Honest P
  | buffered buffer => buffer.Honest P

/-- The outlet has become `o'` from `o` by taking `text`, and may have failed since. -/
structure Kept (P : Failure → Prop) (text : Text) (o o' : Outlet) : Prop where
  honest : o'.Honest P
  discard : o' = .discard ↔ o = .discard
  content : o ≠ .discard → o'.content = o.content ++ text

/-- The outlet has become `o'` from `o` by taking the beginning of `text`. -/
def Partly (P : Failure → Prop) (text : Text) (o o' : Outlet) : Prop :=
  ∃ taken, taken <+: text ∧ Kept P taken o o'

/-- What a flush does to an outlet, whether it succeeds or not. -/
structure Flushing (P : Failure → Prop) (o o' : Outlet) : Prop extends Kept P [] o o' where
  grows : o.received <+: o'.received

variable {o o' o'' : Outlet} {text more : Text}

lemma kept_nil (h : o.Honest P) : Kept P [] o o := ⟨h, Iff.rfl, fun _ => (List.append_nil _).symm⟩

lemma Kept.trans (h : Kept P text o o') (h' : Kept P more o' o'') :
    Kept P (text ++ more) o o'' where
  honest := h'.honest
  discard := h'.discard.trans h.discard
  content := by
    intro ho
    rw [h'.content fun ho' => ho (h.discard.mp ho'), h.content ho, List.append_assoc]

lemma Kept.partly (h : Kept P text o o') : Partly P text o o' := ⟨text, List.prefix_rfl, h⟩

/-- What `R` says of an outlet, it says also after flushes. -/
structure Lasting (P : Failure → Prop) (R : Text → Outlet → Outlet → Prop) : Prop where
  honest : ∀ {text o o'}, R text o o' → o'.Honest P
  flushing : ∀ {text o o' o''}, R text o o' → Flushing P o' o'' → R text o o''

lemma lasting_kept : Lasting P (Kept P) where
  honest h := h.honest
  flushing h h' := by simpa using h.trans h'.toKept

lemma lasting_partly : Lasting P (Partly P) where
  honest := by
    rintro text o o' ⟨taken, -, h⟩
    exact h.honest
  flushing := by
    rintro text o o' o'' ⟨taken, htaken, h⟩ h'
    exact ⟨taken, htaken, lasting_kept.flushing h h'⟩

lemma received_prefix_content (o : Outlet) : o.received <+: o.content := by
  cases o with
  | buffered b => exact List.prefix_append _ _
  | _ => exact List.prefix_rfl

/-- Where everything has arrived, a flush changes nothing of that. -/
lemma Flushing.arrived (h : Flushing P o o') (ho : o.received = o.content) :
    o'.received = o'.content := by
  by_cases hdiscard : o = .discard
  · rw [h.discard.mpr hdiscard]
    rfl
  · refine (received_prefix_content o').eq_of_length_le ?_
    rw [h.content hdiscard, List.append_nil, ← ho]
    exact h.grows.length_le

lemma write_of_honest (h : o.Honest P) (manner : Manner) (piece : Text) :
    ∃ taken, (o.write manner piece).1.Accounts P piece taken ∧
      Kept P taken o (o.write manner piece).2 := by
  cases o with
  | memory pieces =>
      refine ⟨piece, ⟨List.prefix_rfl, fun _ => ⟨rfl, rfl⟩, by simp [write]⟩,
        trivial, by simp [write], fun _ => ?_⟩
      simp [write, Outlet.content]
  | discard =>
      exact ⟨piece, ⟨List.prefix_rfl, fun _ => ⟨rfl, rfl⟩, by simp [write]⟩, trivial, Iff.rfl,
        fun ho => absurd rfl ho⟩
  | direct device =>
      obtain ⟨hdevice, haccounts, hreceived⟩ := Device.write_of_honest h piece
      exact ⟨_, haccounts, hdevice, by simp [write], fun _ => hreceived⟩
  | buffered buffer =>
      obtain ⟨hbuffer, taken, haccounts, hcontent⟩ := Buffer.write_of_honest h manner piece
      exact ⟨taken, haccounts, hbuffer, by simp [write], fun _ => hcontent⟩

lemma flush_of_honest (h : o.Honest P) :
    Flushing P o o.flush.2 ∧ (∀ f ∈ o.flush.1, P f) ∧
      (o.flush.1 = none → o.flush.2.received = o.flush.2.content) := by
  cases o with
  | memory pieces => exact ⟨⟨kept_nil h, List.prefix_rfl⟩, by simp [flush], fun _ => rfl⟩
  | discard => exact ⟨⟨kept_nil h, List.prefix_rfl⟩, by simp [flush], fun _ => rfl⟩
  | direct device =>
      obtain ⟨hdevice, hfails, hreceived⟩ := Device.flush_of_honest h
      refine ⟨⟨⟨hdevice, by simp [flush], fun _ => ?_⟩, ?_⟩, hfails, fun _ => rfl⟩
      · rw [List.append_nil]
        exact hreceived
      · rw [show (direct device).flush.2.received = device.flush.2.received from rfl, hreceived]
        exact List.prefix_rfl
  | buffered buffer =>
      obtain ⟨hbuffer, hfails, hcontent, hgrows⟩ := Buffer.flush_of_honest h
      refine ⟨⟨⟨hbuffer, by simp [flush], fun _ => ?_⟩, hgrows⟩, hfails, fun hnone => ?_⟩
      · rw [List.append_nil]
        exact hcontent
      · have hflush : buffer.flush = (none, buffer.flush.2) := Prod.ext hnone rfl
        have hpending := Buffer.pending_flush hflush
        simp [flush, received, Outlet.content, Buffer.content, hpending]

end Outlet

/-! ## Routes -/

namespace Outlets

variable {R S T : Outlet → Outlet → Prop} {is : List ℕ} {i : ℕ} {all all1 all' : Outlets}
    {o' : Outlet}

lemma Each.comp (h : Each R is all all1) (h' : Each S is all1 all')
    (hT : ∀ o o1 o2, R o o1 → S o1 o2 → T o o2) : Each T is all all' where
  length := h'.length.trans h.length
  changed := by
    intro i hi o ho
    obtain ⟨o1, ho1, hR⟩ := h.changed i hi o ho
    obtain ⟨o2, ho2, hS⟩ := h'.changed i hi o1 ho1
    exact ⟨o2, ho2, hT o o1 o2 hR hS⟩
  same := by
    intro i hi
    rw [h'.same i hi, h.same i hi]

lemma Each.imp (h : Each R is all all') (hS : ∀ o o', R o o' → S o o') : Each S is all all' where
  length := h.length
  changed := by
    intro i hi o ho
    obtain ⟨o', ho', hR⟩ := h.changed i hi o ho
    exact ⟨o', ho', hS o o' hR⟩
  same := h.same

/-- Every outlet there is now has become what it is from one. -/
lemma Each.source (h : Each R is all all') (hi : i ∈ is) (ho' : all'[i]? = some o') :
    ∃ o, all[i]? = some o ∧ R o o' := by
  have hlt : i < all.length := by
    rw [← h.length]
    exact (List.getElem?_eq_some_iff.mp ho').1
  obtain ⟨o1, ho1, hR⟩ := h.changed i hi _ (List.getElem?_eq_getElem hlt)
  rw [ho'] at ho1
  cases ho1
  exact ⟨_, List.getElem?_eq_getElem hlt, hR⟩

/-- The outlets at the positions `is` are honest. -/
def Honest (P : Failure → Prop) (is : List ℕ) (all : Outlets) : Prop :=
  ∀ i ∈ is, ∀ o, all[i]? = some o → o.Honest P

lemma Honest.each (h : Honest P is all) : Each (Outlet.Kept P []) is all all :=
  ⟨rfl, fun i hi o ho => ⟨o, ho, Outlet.kept_nil (h i hi o ho)⟩, fun _ _ => rfl⟩

lemma Honest.head (h : Honest P (i :: is) all) : Honest P [i] all := by
  intro j hj
  cases List.mem_singleton.mp hj
  exact h i List.mem_cons_self

/-- After one outlet has changed, the others are as honest as before. -/
lemma Honest.tail (h : Honest P (i :: is) all) (hi : i ∉ is) (hone : Each R [i] all all1) :
    Honest P is all1 := by
  intro j hj o ho
  have hne : j ∉ [i] := by
    rw [List.mem_singleton]
    rintro rfl
    exact hi hj
  exact h j (List.mem_cons_of_mem i hj) o (by rw [← hone.same j hne, ho])

/-- What came of handing a piece to the outlets at the positions `is`. -/
structure Wrote (P : Failure → Prop) (is : List ℕ) (piece : Text) (all : Outlets) (w : Written)
    (all' : Outlets) : Prop where
  whole : w.failure = none → w.count = piece.length ∧ Each (Outlet.Kept P piece) is all all'
  part : Each (Outlet.Partly P piece) is all all'
  fails : ∀ f ∈ w.failure, P f

lemma writeAt_of_honest (h : Honest P [i] all) (manner : Manner) (piece : Text) :
    Wrote P [i] piece all (all.writeAt manner piece i).1 (all.writeAt manner piece i).2 := by
  rw [writeAt]
  cases ho : all[i]? with
  | none => exact ⟨fun _ => ⟨rfl, each_absent ho⟩, each_absent ho, by simp⟩
  | some o =>
      obtain ⟨taken, haccounts, hkept⟩ :=
        Outlet.write_of_honest (h i (List.mem_singleton_self i) o ho) manner piece
      refine ⟨fun hnone => ?_, each_set ho ⟨taken, haccounts.part, hkept⟩, haccounts.fails⟩
      obtain ⟨rfl, hcount⟩ := haccounts.whole hnone
      exact ⟨hcount, each_set ho hkept⟩

/-- The outlets behind the first one that fails are left as they were. -/
lemma writeEach_of_honest (h : Honest P is all) (hnodup : is.Nodup) (piece : Text) :
    Wrote P is piece all (all.writeEach piece is).1 (all.writeEach piece is).2 := by
  induction is generalizing all with
  | nil => exact ⟨fun _ => ⟨rfl, each_nil all⟩, each_nil all, by simp [writeEach]⟩
  | cons i is ih =>
      obtain ⟨hi, hnodup⟩ := List.nodup_cons.mp hnodup
      have hone := writeAt_of_honest h.head .bytes piece
      rw [writeEach]
      generalize all.writeAt .bytes piece i = written at hone
      obtain ⟨⟨count, _ | failure⟩, all1⟩ := written
      · obtain ⟨hcount, hkept⟩ := hone.whole rfl
        have hrest := ih (h.tail hi hkept) hnodup
        dsimp only at hcount
        simp only [hcount, beq_self_eq_true, if_true]
        exact ⟨fun hnone => ⟨(hrest.whole hnone).1, hkept.cons hi (hrest.whole hnone).2⟩,
          hone.part.cons hi hrest.part, hrest.fails⟩
      · have hothers : Each (Outlet.Partly P piece) is all1 all1 :=
          (h.tail hi hone.part).each.imp fun _ _ hkept => ⟨[], List.nil_prefix, hkept⟩
        exact ⟨by simp, hone.part.cons hi hothers, hone.fails⟩

lemma write_of_honest {route : Route} (h : Honest P route.outlets all)
    (hnodup : route.outlets.Nodup) (manner : Manner) (piece : Text) :
    Wrote P route.outlets piece all (all.write manner piece route).1
      (all.write manner piece route).2 := by
  cases route with
  | single i => exact writeAt_of_honest h manner piece
  | tee is => exact writeEach_of_honest h hnodup piece

/-- What came of flushing the outlets at the positions `is`. -/
structure Flushes (P : Failure → Prop) (is : List ℕ) (all : Outlets) (failure? : Option Failure)
    (all' : Outlets) : Prop where
  each : Each (Outlet.Flushing P) is all all'
  fails : ∀ f ∈ failure?, P f
  arrived : failure? = none → ∀ i ∈ is, ∀ o, all'[i]? = some o → o.received = o.content

lemma flushAt_of_honest (h : Honest P [i] all) :
    Flushes P [i] all (all.flushAt i).1 (all.flushAt i).2 := by
  rw [flushAt]
  cases ho : all[i]? with
  | none =>
      refine ⟨each_absent ho, by simp, fun _ j hj o hj' => ?_⟩
      rw [List.mem_singleton.mp hj] at hj'
      cases ho.symm.trans hj'
  | some o =>
      obtain ⟨hflushing, hfails, harrived⟩ :=
        Outlet.flush_of_honest (h i (List.mem_singleton_self i) o ho)
      refine ⟨each_set ho hflushing, hfails, fun hnone j hj o' hj' => ?_⟩
      cases List.mem_singleton.mp hj
      have hset : (all.set i o.flush.2)[i]? = some o.flush.2 :=
        List.getElem?_set_self (List.getElem?_eq_some_iff.mp ho).1
      cases hset.symm.trans hj'
      exact harrived hnone

/-- All outlets are flushed, also those behind one that fails. -/
lemma flushEach_of_honest (h : Honest P is all) (hnodup : is.Nodup) :
    Flushes P is all (all.flushEach is).1 (all.flushEach is).2 := by
  induction is generalizing all with
  | nil => exact ⟨each_nil all, by simp [flushEach], by simp⟩
  | cons i is ih =>
      obtain ⟨hi, hnodup⟩ := List.nodup_cons.mp hnodup
      have hone := flushAt_of_honest h.head
      rw [flushEach]
      generalize all.flushAt i = flushed at hone
      obtain ⟨failure?, all1⟩ := flushed
      have hrest := ih (h.tail hi hone.each) hnodup
      dsimp only at hone hrest ⊢
      generalize all1.flushEach is = rest at hrest
      obtain ⟨late?, all2⟩ := rest
      refine ⟨hone.each.cons hi hrest.each, ?_, ?_⟩
      · cases failure? with
        | none => exact hrest.fails
        | some failure => exact hone.fails
      · intro hnone j hj o ho
        cases failure? with
        | some failure => cases hnone
        | none =>
            rcases List.mem_cons.mp hj with rfl | hj
            · rw [hrest.each.same j hi] at ho
              exact hone.arrived rfl j (List.mem_singleton_self j) o ho
            · exact hrest.arrived hnone j hj o ho

lemma flush_of_honest {route : Route} (h : Honest P route.outlets all)
    (hnodup : route.outlets.Nodup) :
    Flushes P route.outlets all (all.flush route).1 (all.flush route).2 := by
  cases route with
  | single i => exact flushAt_of_honest h
  | tee is => exact flushEach_of_honest h hnodup

end Outlets

/-! ## The console -/

namespace Console

/-- What the console writes to is honest. -/
def Honest (P : Failure → Prop) (c : Console) : Prop := Outlets.Honest P c.route.outlets c.outlets

/-- All that was handed to the output so far. -/
def said (c : Console) : Text := c.offered.reverse.flatten

/-- A console that nothing was handed to yet. -/
structure Unused (P : Failure → Prop) (c : Console) : Prop where
  honest : c.Honest P
  nodup : c.route.outlets.Nodup
  settled : c.settled = c.route
  offered : c.offered = []

/-- Every outlet in use has become what it is by taking, as `R` says, what was said. -/
structure Holds (R : Text → Outlet → Outlet → Prop) (c₀ c : Console) : Prop where
  route : c.route = c₀.route
  settled : c.settled = c₀.settled
  outlets : Outlets.Each (R c.said) c₀.route.outlets c₀.outlets c.outlets

variable {c₀ c : Console} {R : Text → Outlet → Outlet → Prop}

lemma Unused.holds (h : c₀.Unused P) : Holds (Outlet.Kept P) c₀ c₀ := by
  refine ⟨rfl, rfl, ?_⟩
  rw [said, h.offered]
  exact Outlets.Honest.each h.honest

lemma Holds.partly (h : Holds (Outlet.Kept P) c₀ c) : Holds (Outlet.Partly P) c₀ c :=
  ⟨h.route, h.settled, h.outlets.imp fun _ _ hkept => hkept.partly⟩

lemma Holds.honest (h : Holds R c₀ c) (hR : Outlet.Lasting P R) :
    Outlets.Honest P c₀.route.outlets c.outlets := by
  intro i hi o ho
  obtain ⟨o₀, -, htaken⟩ := h.outlets.source hi ho
  exact hR.honest htaken

lemma said_hand (c : Console) (manner : Manner) (piece : Text) :
    (c.hand manner piece).2.said = c.said ++ piece := by simp [said, hand]

/-- A piece is kept by every outlet, or the write fails; whatever happens, the beginning is kept. -/
lemma Holds.hand (h : Holds (Outlet.Kept P) c₀ c) (hc₀ : c₀.Unused P) (manner : Manner)
    (piece : Text) :
    ((c.hand manner piece).1 = none → Holds (Outlet.Kept P) c₀ (c.hand manner piece).2) ∧
      Holds (Outlet.Partly P) c₀ (c.hand manner piece).2 ∧ ∀ f ∈ (c.hand manner piece).1, P f := by
  have hwrote := Outlets.write_of_honest (h.honest Outlet.lasting_kept) hc₀.nodup manner piece
  have hhand : c.hand manner piece = ((c.outlets.write manner piece c₀.route).1.failure,
      { c with
        outlets := (c.outlets.write manner piece c₀.route).2
        reported := false
        offered := piece :: c.offered }) := by
    rw [← h.route]
    rfl
  have hsaid := said_hand c manner piece
  rw [hhand] at hsaid ⊢
  refine ⟨fun hnone => ⟨h.route, h.settled, ?_⟩, ⟨h.route, h.settled, ?_⟩, hwrote.fails⟩
  · rw [hsaid]
    exact h.outlets.comp (hwrote.whole hnone).2 fun _ _ _ hkept hmore => hkept.trans hmore
  · rw [hsaid]
    refine h.outlets.comp hwrote.part ?_
    rintro o o1 o2 hkept ⟨taken, htaken, hmore⟩
    exact ⟨c.said ++ taken, (List.prefix_append_right_inj _).mpr htaken, hkept.trans hmore⟩

/-- A flush loses nothing.  If it succeeds, or if everything had arrived before, everything has
arrived. -/
lemma Holds.flushing (h : Holds R c₀ c) (hc₀ : c₀.Unused P) (hR : Outlet.Lasting P R) :
    Holds R c₀ { c with outlets := (c.outlets.flush c₀.route).2 } ∧
      (∀ f ∈ (c.outlets.flush c₀.route).1, P f) ∧
      ((c.outlets.flush c₀.route).1 = none ∨ c.Flushed →
        ({ c with outlets := (c.outlets.flush c₀.route).2 } : Console).Flushed) := by
  have hflush := Outlets.flush_of_honest (h.honest hR) hc₀.nodup
  refine ⟨⟨h.route, h.settled, h.outlets.comp hflush.each fun _ _ _ => hR.flushing⟩,
    hflush.fails, ?_⟩
  intro harrived i hi o ho
  rw [show ({ c with outlets := (c.outlets.flush c₀.route).2 } : Console).route = c₀.route
    from h.route] at hi
  rcases harrived with hnone | hflushed
  · exact hflush.arrived hnone i hi o ho
  · obtain ⟨o1, ho1, hflushing⟩ := hflush.each.source hi ho
    exact hflushing.arrived (hflushed i (by rw [h.route]; exact hi) o1 ho1)

lemma Holds.flush (h : Holds R c₀ c) (hc₀ : c₀.Unused P) (hR : Outlet.Lasting P R) :
    Holds R c₀ c.flush.2 ∧ (∀ f ∈ c.flush.1, P f) ∧
      (c.flush.1 = none ∨ c.Flushed → c.flush.2.Flushed) := by
  have hflush : c.flush = ((c.outlets.flush c₀.route).1,
      { c with outlets := (c.outlets.flush c₀.route).2 }) := by
    rw [← h.route]
    rfl
  rw [hflush]
  exact h.flushing hc₀ hR

lemma Holds.settle (h : Holds R c₀ c) (hc₀ : c₀.Unused P) (hR : Outlet.Lasting P R) :
    Holds R c₀ c.settle.2 ∧ (∀ f ∈ c.settle.1, P f) ∧
      (c.settle.1 = none ∨ c.Flushed → c.settle.2.Flushed) := by
  have hsettle : c.settle = ((c.outlets.flush c₀.route).1,
      { c with outlets := (c.outlets.flush c₀.route).2 }) := by
    rw [← hc₀.settled, ← h.settled]
    rfl
  rw [hsettle]
  exact h.flushing hc₀ hR

end Console

/-! ## New machines -/

namespace Machine

variable {m : Machine}

/-- Nothing has been read or written yet. -/
structure Blank (m : Machine) : Prop where
  input : m.input = { queue := m.input.queue }
  reported : m.console.reported = false
  offered : m.console.offered = []

lemma blank_applyOne (m : Machine) (setting : Setting) (m' : Machine) (h : m.Blank)
    (hone : Setting.applyOne m setting = .ok m') : m'.Blank := by
  obtain ⟨hinput, hreported, hoffered⟩ := h
  have hfeed : ∀ stream, (m.feed stream).Blank := fun stream =>
    ⟨by rw [feed, Source.feed, hinput], hreported, hoffered⟩
  cases setting with
  | input stream closer => cases hone; exact ⟨(hfeed stream).input, hreported, hoffered⟩
  | written name text =>
      cases text with
      | error failure => cases hone
      | ok text => cases hone; exact hfeed _
  | prelude => cases hone; exact hfeed _
  | _ => cases hone; exact ⟨hinput, hreported, hoffered⟩

/-- In a new machine, the streams wait and nothing has been said. -/
lemma blank_create {settings : List Setting} (hnew : create settings = .ok m) :
    m.input = { queue := m.input.queue, prompting := true } ∧ m.console.reported = false ∧
      m.console.offered = [] := by
  rw [create_eq_applyAll] at hnew
  cases happly : Setting.applyAll initial settings with
  | error failure => rw [happly] at hnew; cases hnew
  | ok m1 =>
      rw [happly] at hnew
      cases hnew
      have hblank : m1.Blank :=
        Setting.applyAll_keeps blank_applyOne settings ⟨rfl, rfl, rfl⟩ happly
      refine ⟨?_, hblank.reported, hblank.offered⟩
      rw [ready, hblank.input]

lemma unused_create {settings : List Setting} (hnew : create settings = .ok m)
    (hhonest : m.console.Honest P) : m.console.Unused P := by
  have hoffered := (blank_create hnew).2.2
  rw [create_eq_applyAll] at hnew
  cases happly : Setting.applyAll initial settings with
  | error failure => rw [happly] at hnew; cases hnew
  | ok m1 =>
      rw [happly] at hnew
      cases hnew
      have hrouted : m1.Routed :=
        Setting.applyAll_keeps routed_applyOne settings ⟨by decide, by decide⟩ happly
      exact ⟨hhonest, hrouted.1, rfl, hoffered⟩

end Machine

end ColonMachine
