import ColonMachine.Proofs.Faults

/-!
# Output that does not fail

An outlet is **reliable** if what is behind it takes every byte and never fails.  Then all that can
be said about writing is what has been written: `Outlet.content` is that, whether it has arrived at
the far end or is still in a buffer.

* Writing a piece adds it to the content of every outlet of the route, and flushing changes no
  content but empties the buffers (`write_of_reliable`, `flush_of_reliable`, at each level).
* `Console.Heard c₀ text c` says that the console has become `c` from `c₀` by writing `text` and
  flushing; it is what the console of a session keeps to.
-/

namespace ColonMachine

/-! ## Devices and buffers -/

/-- A device that takes every byte and never fails. -/
structure Device.Reliable (d : Device) : Prop where
  takes : ∀ events bytes,
    bytes.length ≤ (d.onWrite events bytes).count ∧ (d.onWrite events bytes).failure = none
  flushes : ∀ events, d.onFlush events = none

namespace Device

variable {d : Device}

lemma write_of_reliable (h : d.Reliable) (bytes : Text) :
    ∃ d', d.write bytes = (⟨bytes.length, none⟩, d') ∧ d'.Reliable ∧
      d'.received = d.received ++ bytes := by
  obtain ⟨hcount, hfailure⟩ := h.takes d.events bytes
  refine ⟨{ d with events := .wrote bytes :: d.events }, ?_, ⟨h.takes, h.flushes⟩, ?_⟩
  · simp [write, Nat.min_eq_right hcount, hfailure]
  · simp [received, Event.bytes]

lemma flush_of_reliable (h : d.Reliable) :
    ∃ d', d.flush = (none, d') ∧ d'.Reliable ∧ d'.received = d.received := by
  refine ⟨{ d with events := .flushed :: d.events }, ?_, ⟨h.takes, h.flushes⟩, ?_⟩
  · rw [flush, h.flushes]
  · simp [received, Event.bytes]

end Device

/-- A buffer before a reliable device. -/
structure Buffer.Reliable (b : Buffer) : Prop where
  device : b.device.Reliable
  failed : b.failed = none

namespace Buffer

variable {b : Buffer}

def content (b : Buffer) : Text := b.device.received ++ b.pending

lemma flush_of_reliable (h : b.Reliable) :
    ∃ b', b.flush = (none, b') ∧ b'.Reliable ∧ b'.pending = [] ∧ b'.content = b.content := by
  rw [flush, h.failed]
  cases hpending : b.pending with
  | nil => exact ⟨b, by simp, h, hpending, rfl⟩
  | cons byte bytes =>
      obtain ⟨d, hwrite, hd, hreceived⟩ := Device.write_of_reliable h.device (byte :: bytes)
      refine ⟨{ device := d, pending := [], failed := none }, ?_, ⟨hd, rfl⟩, rfl, ?_⟩
      · simp [hwrite]
      · simp [content, hreceived, hpending]

lemma write_fitting {manner : Manner} {piece : Text} (h : b.Reliable)
    (hfits : piece.length ≤ capacity - b.pending.length) :
    b.write manner piece = (⟨piece.length, none⟩, { b with pending := b.pending ++ piece }) := by
  rw [write]
  simp [h.failed, hfits]

lemma write_direct {manner : Manner} {piece : Text} {d : Device} (h : b.Reliable)
    (hfits : ¬ piece.length ≤ capacity - b.pending.length)
    (hdirect : (manner == .bytes && b.pending.isEmpty) = true) (hd : d.Reliable)
    (hwrite : b.device.write piece = (⟨piece.length, none⟩, d)) :
    b.write manner piece = (⟨piece.length, none⟩, { b with device := d, failed := none }) := by
  have hpositive : piece.length ≠ 0 := by omega
  have hrest : ({ b with device := d, failed := none } : Buffer).write manner []
      = (⟨0, none⟩, { b with device := d, failed := none, pending := b.pending ++ [] }) :=
    write_fitting ⟨hd, rfl⟩ (Nat.zero_le _)
  rw [write]
  simp only [h.failed, hfits, dite_false, hdirect, if_true, hwrite, hpositive, List.drop_length]
  rw [hrest]
  simp

/-- A piece that fills the buffer up, and what is left of it. -/
lemma write_through {manner : Manner} {piece : Text} {b1 b2 : Buffer} {rest : Written}
    (h : b.Reliable) (hfits : ¬ piece.length ≤ capacity - b.pending.length)
    (hdirect : ¬ (manner == .bytes && b.pending.isEmpty) = true)
    (hflush : flush { b with
      pending := b.pending ++ piece.take (capacity - b.pending.length) } = (none, b1))
    (hrest : b1.write manner (piece.drop (capacity - b.pending.length)) = (rest, b2)) :
    b.write manner piece
      = (⟨capacity - b.pending.length + rest.count, rest.failure⟩, b2) := by
  rw [write]
  simp only [h.failed, hfits, dite_false, hdirect, Bool.false_eq_true, if_false]
  split
  · next heq =>
    rw [hflush] at heq
    cases heq
  · next heq =>
    rw [hflush] at heq
    cases heq
    rw [hrest]

/-- The induction is on how much there is to pass on, as in the definition of `write`. -/
lemma write_of_reliable (h : b.Reliable) (manner : Manner) (piece : Text) :
    ∃ b', b.write manner piece = (⟨piece.length, none⟩, b') ∧ b'.Reliable ∧
      b'.content = b.content ++ piece := by
  induction hsize : 2 * piece.length + b.pending.length using Nat.strongRecOn
    generalizing piece b with
  | ind size ih =>
      by_cases hfits : piece.length ≤ capacity - b.pending.length
      · refine ⟨_, write_fitting h hfits, ⟨h.device, h.failed⟩, ?_⟩
        simp [content]
      by_cases hdirect : (manner == .bytes && b.pending.isEmpty) = true
      · obtain ⟨d, hwrite, hd, hreceived⟩ := Device.write_of_reliable h.device piece
        refine ⟨_, write_direct h hfits hdirect hd hwrite, ⟨hd, rfl⟩, ?_⟩
        have hempty : b.pending = [] := by
          simp only [Bool.and_eq_true, List.isEmpty_iff] at hdirect
          exact hdirect.2
        simp [content, hreceived, hempty]
      · obtain ⟨b1, hflush, hb1, hpending, hcontent1⟩ := flush_of_reliable
          (b := { b with pending := b.pending ++ piece.take (capacity - b.pending.length) })
          ⟨h.device, h.failed⟩
        have hless : 2 * (piece.drop (capacity - b.pending.length)).length + b1.pending.length
            < size := by
          rw [hpending]
          simp only [List.length_drop, List.length_nil, capacity] at hfits ⊢
          omega
        obtain ⟨b2, hrest, hb2, hcontent2⟩ := ih _ hless hb1 _ rfl
        refine ⟨b2, ?_, hb2, ?_⟩
        · rw [write_through h hfits hdirect hflush hrest]
          simp only [List.length_drop]
          rw [Nat.add_sub_cancel' (by omega)]
        · rw [hcontent2, hcontent1]
          simp [content]

end Buffer

/-! ## Outlets -/

namespace Outlet

/-- Nothing behind the outlet ever fails. -/
def Reliable : Outlet → Prop
  | memory _ | discard => True
  | direct device => device.Reliable
  | buffered buffer => buffer.Reliable

/-- What has been written to an outlet, as far as it keeps it. -/
def content : Outlet → Text
  | memory pieces => pieces.reverse.flatten
  | discard => []
  | direct device => device.received
  | buffered buffer => buffer.content

/-- The outlet has become `o'` from `o` by taking `text`. -/
structure Took (text : Text) (o o' : Outlet) : Prop where
  reliable : o'.Reliable
  /-- It forgets or keeps what it is given as before. -/
  discard : o' = .discard ↔ o = .discard
  content : o ≠ .discard → o'.content = o.content ++ text

variable {o o' o'' : Outlet} {text more : Text}

lemma took_nil (h : o.Reliable) : Took [] o o := ⟨h, Iff.rfl, fun _ => (List.append_nil _).symm⟩

lemma Took.trans (h : Took text o o') (h' : Took more o' o'') : Took (text ++ more) o o'' where
  reliable := h'.reliable
  discard := h'.discard.trans h.discard
  content := by
    intro ho
    rw [h'.content fun ho' => ho (h.discard.mp ho'), h.content ho, List.append_assoc]

lemma write_of_reliable (h : o.Reliable) (manner : Manner) (piece : Text) :
    ∃ o', o.write manner piece = (⟨piece.length, none⟩, o') ∧ Took piece o o' := by
  cases o with
  | memory pieces =>
      exact ⟨_, rfl, trivial, by simp, fun _ => by simp [Outlet.content]⟩
  | discard => exact ⟨_, rfl, trivial, Iff.rfl, fun ho => absurd rfl ho⟩
  | direct device =>
      obtain ⟨d, hwrite, hd, hreceived⟩ := Device.write_of_reliable h piece
      exact ⟨.direct d, by simp [write, hwrite], hd, by simp, fun _ => hreceived⟩
  | buffered buffer =>
      obtain ⟨b, hwrite, hb, hcontent⟩ := Buffer.write_of_reliable h manner piece
      exact ⟨.buffered b, by simp [write, hwrite], hb, by simp, fun _ => hcontent⟩

/-- Flushing brings everything to the far end. -/
lemma flush_of_reliable (h : o.Reliable) :
    ∃ o', o.flush = (none, o') ∧ Took [] o o' ∧ o'.received = o'.content := by
  cases o with
  | memory pieces => exact ⟨_, rfl, took_nil h, rfl⟩
  | discard => exact ⟨_, rfl, took_nil h, rfl⟩
  | direct device =>
      obtain ⟨d, hflush, hd, hreceived⟩ := Device.flush_of_reliable h
      refine ⟨.direct d, by simp [flush, hflush], ⟨hd, by simp, fun _ => ?_⟩, rfl⟩
      rw [List.append_nil]
      exact hreceived
  | buffered buffer =>
      obtain ⟨b, hflush, hb, hpending, hcontent⟩ := Buffer.flush_of_reliable h
      refine ⟨.buffered b, by simp [flush, hflush], ⟨hb, by simp, fun _ => ?_⟩, ?_⟩
      · rw [List.append_nil]
        exact hcontent
      · simp [received, Outlet.content, Buffer.content, hpending]

end Outlet

/-! ## Routes -/

namespace Outlets

/-- The outlets at the positions `is` have changed as `R` says, and no others. -/
structure Each (R : Outlet → Outlet → Prop) (is : List ℕ) (all all' : Outlets) : Prop where
  length : all'.length = all.length
  changed : ∀ i ∈ is, ∀ o, all[i]? = some o → ∃ o', all'[i]? = some o' ∧ R o o'
  same : ∀ i ∉ is, all'[i]? = all[i]?

variable {R : Outlet → Outlet → Prop} {is : List ℕ} {i : ℕ} {all all1 all' : Outlets}

lemma each_nil (all : Outlets) : Each R [] all all := ⟨rfl, by simp, fun _ _ => rfl⟩

lemma Each.cons (hi : i ∉ is) (hone : Each R [i] all all1) (hrest : Each R is all1 all') :
    Each R (i :: is) all all' where
  length := hrest.length.trans hone.length
  changed := by
    intro j hj o ho
    rcases List.mem_cons.mp hj with rfl | hmem
    · obtain ⟨o', ho', hR⟩ := hone.changed j (List.mem_singleton_self j) o ho
      exact ⟨o', by rw [hrest.same j hi, ho'], hR⟩
    · have hne : j ∉ [i] := by
        rw [List.mem_singleton]
        rintro rfl
        exact hi hmem
      exact hrest.changed j hmem o (by rw [hone.same j hne, ho])
  same := by
    intro j hj
    simp only [List.mem_cons, not_or] at hj
    rw [hrest.same j hj.2, hone.same j (by simpa using hj.1)]

lemma each_set {o o' : Outlet} (ho : all[i]? = some o) (hR : R o o') :
    Each R [i] all (all.set i o') where
  length := List.length_set
  changed := by
    intro j hj o1 ho1
    cases List.mem_singleton.mp hj
    rw [ho] at ho1
    cases ho1
    exact ⟨o', List.getElem?_set_self (List.getElem?_eq_some_iff.mp ho).1, hR⟩
  same := by
    intro j hj
    exact List.getElem?_set_ne fun heq => hj (by simp [heq])

lemma each_absent (ho : all[i]? = none) : Each R [i] all all where
  length := rfl
  changed := by
    intro j hj o1 ho1
    cases List.mem_singleton.mp hj
    rw [ho] at ho1
    cases ho1
  same := fun _ _ => rfl

/-- The outlets at the positions `is` are reliable. -/
def Reliable (is : List ℕ) (all : Outlets) : Prop := ∀ i ∈ is, ∀ o, all[i]? = some o → o.Reliable

lemma writeAt_of_reliable (h : Reliable [i] all) (manner : Manner) (piece : Text) :
    ∃ all', all.writeAt manner piece i = (⟨piece.length, none⟩, all') ∧
      Each (Outlet.Took piece) [i] all all' := by
  cases ho : all[i]? with
  | none => exact ⟨all, by simp [writeAt, ho], each_absent ho⟩
  | some o =>
      obtain ⟨o', hwrite, htook⟩ :=
        Outlet.write_of_reliable (h i (List.mem_singleton_self i) o ho) manner piece
      exact ⟨all.set i o', by simp [writeAt, ho, hwrite], each_set ho htook⟩

/-- What a flush does to an outlet. -/
def Flushed (o o' : Outlet) : Prop := Outlet.Took [] o o' ∧ o'.received = o'.content

lemma flushAt_of_reliable (h : Reliable [i] all) :
    ∃ all', all.flushAt i = (none, all') ∧ Each Flushed [i] all all' := by
  cases ho : all[i]? with
  | none => exact ⟨all, by simp [flushAt, ho], each_absent ho⟩
  | some o =>
      obtain ⟨o', hflush, htook⟩ := Outlet.flush_of_reliable (h i (List.mem_singleton_self i) o ho)
      exact ⟨all.set i o', by simp [flushAt, ho, hflush], each_set ho htook⟩

/-- After one outlet has changed, the others are as reliable as before. -/
lemma Reliable.tail (h : Reliable (i :: is) all) (hi : i ∉ is) (hone : Each R [i] all all1) :
    Reliable is all1 := by
  intro j hj o ho
  have hne : j ∉ [i] := by
    rw [List.mem_singleton]
    rintro rfl
    exact hi hj
  exact h j (List.mem_cons_of_mem i hj) o (by rw [← hone.same j hne, ho])

lemma Reliable.head (h : Reliable (i :: is) all) : Reliable [i] all := by
  intro j hj
  cases List.mem_singleton.mp hj
  exact h i List.mem_cons_self

lemma writeEach_of_reliable (h : Reliable is all) (hnodup : is.Nodup) (piece : Text) :
    ∃ all', all.writeEach piece is = (⟨piece.length, none⟩, all') ∧
      Each (Outlet.Took piece) is all all' := by
  induction is generalizing all with
  | nil => exact ⟨all, rfl, each_nil all⟩
  | cons i is ih =>
      obtain ⟨hi, hnodup⟩ := List.nodup_cons.mp hnodup
      obtain ⟨all1, hwrite, hone⟩ := writeAt_of_reliable h.head .bytes piece
      obtain ⟨all', hrest, heach⟩ := ih (h.tail hi hone) hnodup
      refine ⟨all', ?_, hone.cons hi heach⟩
      rw [writeEach, hwrite]
      simp [hrest]

lemma flushEach_of_reliable (h : Reliable is all) (hnodup : is.Nodup) :
    ∃ all', all.flushEach is = (none, all') ∧ Each Flushed is all all' := by
  induction is generalizing all with
  | nil => exact ⟨all, rfl, each_nil all⟩
  | cons i is ih =>
      obtain ⟨hi, hnodup⟩ := List.nodup_cons.mp hnodup
      obtain ⟨all1, hflush, hone⟩ := flushAt_of_reliable h.head
      obtain ⟨all', hrest, heach⟩ := ih (h.tail hi hone) hnodup
      refine ⟨all', ?_, hone.cons hi heach⟩
      rw [flushEach, hflush]
      simp [hrest]

lemma write_of_reliable {route : Route} (h : Reliable route.outlets all)
    (hnodup : route.outlets.Nodup) (manner : Manner) (piece : Text) :
    ∃ all', all.write manner piece route = (⟨piece.length, none⟩, all') ∧
      Each (Outlet.Took piece) route.outlets all all' := by
  cases route with
  | single i => exact writeAt_of_reliable h manner piece
  | tee is => exact writeEach_of_reliable h hnodup piece

lemma flush_of_reliable {route : Route} (h : Reliable route.outlets all)
    (hnodup : route.outlets.Nodup) :
    ∃ all', all.flush route = (none, all') ∧ Each Flushed route.outlets all all' := by
  cases route with
  | single i => exact flushAt_of_reliable h
  | tee is => exact flushEach_of_reliable h hnodup

end Outlets

/-! ## The console -/

namespace Console

/-- Nothing that the console writes to ever fails. -/
def Reliable (c : Console) : Prop := Outlets.Reliable c.route.outlets c.outlets

/-- A console whose output can be relied on. -/
structure Firm (c : Console) : Prop where
  reliable : c.Reliable
  nodup : c.route.outlets.Nodup
  /-- What it writes to is flushed before a line is read. -/
  settled : c.settled = c.route

/-- A console whose output can be relied on, and which shows no prompts. -/
structure Steady (c : Console) : Prop extends Firm c where
  prompts : c.prompts = .off

/-- The console has become `c` from `c₀` by writing `text` and flushing. -/
structure Heard (c₀ : Console) (text : Text) (c : Console) : Prop where
  route : c.route = c₀.route
  settled : c.settled = c₀.settled
  prompts : c.prompts = c₀.prompts
  style : c.style = c₀.style
  outlets : Outlets.Each (Outlet.Took text) c₀.route.outlets c₀.outlets c.outlets

/-- Everything has arrived at the far end. -/
def Flushed (c : Console) : Prop :=
  ∀ i ∈ c.route.outlets, ∀ o, c.outlets[i]? = some o → o.received = o.content

variable {c₀ c : Console} {text : Text}

lemma Firm.heard (h : c₀.Firm) : Heard c₀ [] c₀ where
  route := rfl
  settled := rfl
  prompts := rfl
  style := rfl
  outlets := ⟨rfl, fun i hi o ho => ⟨o, ho, Outlet.took_nil (h.reliable i hi o ho)⟩,
    fun _ _ => rfl⟩

/-- Memory does not fail. -/
lemma reliable_of_memory {i : ℕ} {written : List Text} (hroute : c.route = .single i)
    (ho : c.outlets[i]? = some (.memory written)) : c.Reliable := by
  rw [Reliable, hroute]
  intro j hj o ho'
  rw [List.mem_singleton.mp hj, ho] at ho'
  cases ho'
  exact trivial

lemma Heard.reliable (h : Heard c₀ text c) : Outlets.Reliable c₀.route.outlets c.outlets := by
  intro i hi o ho
  have hlt : i < c₀.outlets.length := by
    rw [← h.outlets.length]
    exact (List.getElem?_eq_some_iff.mp ho).1
  obtain ⟨o', ho', htook⟩ := h.outlets.changed i hi _ (List.getElem?_eq_getElem hlt)
  rw [ho] at ho'
  cases ho'
  exact htook.reliable

/-- After another change of the outlets that are written to. -/
lemma Heard.trans {all : Outlets} {more : Text} {R : Outlet → Outlet → Prop} (h : Heard c₀ text c)
    (heach : Outlets.Each R c₀.route.outlets c.outlets all)
    (hR : ∀ o o', R o o' → Outlet.Took more o o') :
    Outlets.Each (Outlet.Took (text ++ more)) c₀.route.outlets c₀.outlets all where
  length := heach.length.trans h.outlets.length
  changed := by
    intro i hi o ho
    obtain ⟨o1, ho1, htook⟩ := h.outlets.changed i hi o ho
    obtain ⟨o2, ho2, hlast⟩ := heach.changed i hi o1 ho1
    exact ⟨o2, ho2, htook.trans (hR _ _ hlast)⟩
  same := by
    intro i hi
    rw [heach.same i hi, h.outlets.same i hi]

lemma Heard.hand (h : Heard c₀ text c) (hc₀ : c₀.Firm) (manner : Manner) (piece : Text) :
    ∃ c', c.hand manner piece = (none, c') ∧ Heard c₀ (text ++ piece) c' := by
  obtain ⟨all, hwrite, heach⟩ := Outlets.write_of_reliable h.reliable hc₀.nodup manner piece
  refine ⟨{ c with outlets := all, reported := false, offered := piece :: c.offered }, ?_,
    h.route, h.settled, h.prompts, h.style, h.trans heach fun _ _ ht => ht⟩
  rw [Console.hand, h.route, hwrite]

lemma Heard.write (h : Heard c₀ text c) (hc₀ : c₀.Firm) (t : Text) :
    ∃ c', c.write t = (none, c') ∧ Heard c₀ (text ++ t) c' := by
  rw [Console.write]
  cases t with
  | nil => exact ⟨c, rfl, by rwa [List.append_nil]⟩
  | cons byte bytes => exact h.hand hc₀ .chars _

lemma Heard.flushing (h : Heard c₀ text c) (hc₀ : c₀.Firm) :
    ∃ all, c.outlets.flush c₀.route = (none, all) ∧ Heard c₀ text { c with outlets := all } ∧
      ({ c with outlets := all } : Console).Flushed := by
  obtain ⟨all, hflush, heach⟩ := Outlets.flush_of_reliable h.reliable hc₀.nodup
  refine ⟨all, hflush, ⟨h.route, h.settled, h.prompts, h.style, ?_⟩, ?_⟩
  · simpa using h.trans heach fun _ _ ht => ht.1
  · intro i hi o ho
    rw [show ({ c with outlets := all } : Console).route = c₀.route from h.route] at hi
    have hlt : i < c.outlets.length := by
      rw [← heach.length]
      exact (List.getElem?_eq_some_iff.mp ho).1
    obtain ⟨o', ho', -, hreceived⟩ := heach.changed i hi _ (List.getElem?_eq_getElem hlt)
    rw [show all[i]? = some o from ho] at ho'
    cases ho'
    exact hreceived

lemma Heard.flush (h : Heard c₀ text c) (hc₀ : c₀.Firm) :
    ∃ c', c.flush = (none, c') ∧ Heard c₀ text c' ∧ c'.Flushed := by
  obtain ⟨all, hflush, hheard, hflushed⟩ := h.flushing hc₀
  exact ⟨_, by rw [Console.flush, h.route, hflush], hheard, hflushed⟩

lemma Heard.settle (h : Heard c₀ text c) (hc₀ : c₀.Firm) :
    ∃ c', c.settle = (none, c') ∧ Heard c₀ text c' := by
  obtain ⟨all, hflush, hheard, -⟩ := h.flushing hc₀
  exact ⟨_, by rw [Console.settle, h.settled, hc₀.settled, hflush], hheard⟩

/-- Without prompts, only a flush comes before a read. -/
lemma announce_off (h : c.prompts = .off) (mode : Mode) (src : Source) :
    src.announce (hooks mode) c = c.settle := by
  have hprompt : c.showPrompt mode = (none, c) := by
    rw [showPrompt, h]
    cases mode <;> cases c.reported <;> rfl
  rw [Source.announce]
  simp only [hooks, hprompt]
  split_ifs <;> rfl

lemma Heard.announce (h : Heard c₀ text c) (hc₀ : c₀.Steady) (mode : Mode) (src : Source) :
    ∃ c', src.announce (hooks mode) c = (none, c') ∧ Heard c₀ text c' := by
  rw [announce_off (h.prompts.trans hc₀.prompts)]
  exact h.settle hc₀.toFirm

/-- What happens before a line is read: perhaps a prompt is shown, and then there is a flush. -/
lemma Heard.announce_prompting (h : Heard c₀ text c) (hc₀ : c₀.Firm) (mode : Mode) (src : Source) :
    ∃ more c', src.announce (hooks mode) c = (none, c') ∧ Heard c₀ (text ++ more) c' ∧
      (more = [] ∨ more = c₀.prompts.of mode ∨
      more = (c₀.prompts.of mode).dropLead [Text.newline]) := by
  rw [Source.announce]
  split_ifs
  · obtain ⟨c1, hwrite, h1⟩ := h.write hc₀
      (if c.reported then (c.prompts.of mode).dropLead [Text.newline] else c.prompts.of mode)
    obtain ⟨c', hsettle, hheard⟩ := h1.settle hc₀
    refine ⟨_, c', by simp only [hooks, showPrompt, hwrite, hsettle], hheard, Or.inr ?_⟩
    rw [h.prompts]
    cases c.reported <;> simp
  · obtain ⟨c', hsettle, hheard⟩ := h.settle hc₀
    exact ⟨[], c', hsettle, by rwa [List.append_nil], Or.inl rfl⟩

/-- What the console has become can be relied on as much. -/
lemma Heard.firm (h : Heard c₀ text c) (hc₀ : c₀.Firm) : c.Firm where
  reliable := by
    rw [Reliable, h.route]
    exact h.reliable
  nodup := by
    rw [h.route]
    exact hc₀.nodup
  settled := by rw [h.settled, hc₀.settled, h.route]

end Console

/-! ## New machines -/

lemma Route.outlets_ofOutlets {is : List ℕ} (h : is ≠ []) :
    ∃ route, Route.ofOutlets is = some route ∧ route.outlets = is := by
  rcases is with _ | ⟨i, _ | ⟨j, is⟩⟩
  · exact absurd rfl h
  · exact ⟨_, rfl, rfl⟩
  · exact ⟨_, rfl, rfl⟩

namespace Machine

variable {m m' : Machine}

/-- The output goes to outlets that are there, and to none of them twice. -/
def Routed (m : Machine) : Prop :=
  m.console.route.outlets.Nodup ∧ ∀ i ∈ m.console.route.outlets, i < m.console.outlets.length

/-- A tee is added to the outlets of the route. -/
lemma outlets_branch (m : Machine) (outlet : Outlet) :
    (m.branch outlet).console.route.outlets = m.console.route.outlets ++
      [m.console.outlets.length] := by
  have hne : m.console.route.outlets ++ [m.console.outlets.length] ≠ [] := by simp
  obtain ⟨route, hroute, houtlets⟩ := Route.outlets_ofOutlets hne
  have hcombine : Route.combine [some m.console.route, some (.single m.console.outlets.length)]
      = some route := by
    rw [← hroute]
    rfl
  rw [branch]
  simp only [hcombine, Option.getD_some, houtlets]

lemma routed_branch (h : m.Routed) (outlet : Outlet) : (m.branch outlet).Routed := by
  obtain ⟨hnodup, hlt⟩ := h
  rw [Routed, outlets_branch]
  refine ⟨List.nodup_append.mpr ⟨hnodup, by simp, ?_⟩, ?_⟩
  · rintro i hi j hj rfl
    exact absurd (hlt i hi) (by simp [List.mem_singleton.mp hj])
  · intro i hi
    rcases List.mem_append.mp hi with hi | hi
    · exact Nat.lt_of_lt_of_le (hlt i hi) (by simp [branch])
    · simp [branch, List.mem_singleton.mp hi]

lemma routed_applyOne (m : Machine) (setting : Setting) (m' : Machine) (h : m.Routed)
    (hone : Setting.applyOne m setting = .ok m') : m'.Routed := by
  cases setting with
  | written name text =>
      cases text with
      | error failure => cases hone
      | ok text => cases hone; exact h
  | output outlet =>
      cases hone; exact ⟨by simp [redirect, Route.outlets], by simp [redirect, Route.outlets]⟩
  | tee outlet => cases hone; exact routed_branch h outlet
  | _ => cases hone; exact h

/-- The console of a new machine can be relied on if its outlets can. -/
lemma firm_create {settings : List Setting} (hnew : create settings = .ok m)
    (hreliable : m.console.Reliable) : m.console.Firm := by
  rw [create_eq_applyAll] at hnew
  cases happly : Setting.applyAll initial settings with
  | error failure => rw [happly] at hnew; cases hnew
  | ok m1 =>
      rw [happly] at hnew
      cases hnew
      have hrouted : m1.Routed :=
        Setting.applyAll_keeps routed_applyOne settings ⟨by decide, by decide⟩ happly
      exact ⟨hreliable, hrouted.1, rfl⟩

lemma steady_create {settings : List Setting} (hnew : create settings = .ok m)
    (hreliable : m.console.Reliable) (hprompts : m.console.prompts = .off) :
    m.console.Steady := ⟨firm_create hnew hreliable, hprompts⟩

end Machine

end ColonMachine
