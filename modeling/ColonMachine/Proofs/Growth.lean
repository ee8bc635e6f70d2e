import ColonMachine.Proofs.Changes
import ColonMachine.Proofs.Faults

/-!
# The dictionary only grows

A function keeps its id, its name and what runs it for as long as the session lasts.  Its code is
final too, unless it is the open definition, and that one is only ever added to at the end.  No name
is taken twice, so what a name was found to mean once it means for ever.

`Engine.Grows` compares two states of an engine, `Engine.Filed` is what holds of each of them.  Both
are kept by every single change, so they hold throughout a session (`Later`), also across further
runs and wherever a run is broken off.  That words are compiled exactly while a definition is open
is known between two instructions only: a run that is broken off while `:` waits for its name leaves
the one without the other.
-/

namespace ColonMachine

/-! ## Two states of the dictionary -/

/-- The function has become `f'` from `f` by having code added to it. -/
structure Function.Extends (f f' : Function) : Prop where
  name : f'.name = f.name
  native : f'.native = f.native
  immediate : f'.immediate = f.immediate
  code : f.code <+: f'.code

lemma Function.extends_refl (f : Function) : f.Extends f := ⟨rfl, rfl, rfl, List.prefix_refl _⟩

lemma Function.Extends.trans {f g h : Function} (hfg : f.Extends g) (hgh : g.Extends h) :
    f.Extends h :=
  ⟨hgh.name.trans hfg.name, hgh.native.trans hfg.native, hgh.immediate.trans hfg.immediate,
    hfg.code.trans hgh.code⟩

namespace Engine

/-- Every function of `e` is in `e'` as it was, or it is the open definition of `e` and has been
added to. -/
structure Grows (e e' : Engine) : Prop where
  size : e.dict.size ≤ e'.dict.size
  kept : ∀ id f, e.dict.get? id = some f →
    ∃ f', e'.dict.get? id = some f' ∧ f.Extends f' ∧ (e.defining ≠ some id → f' = f)
  /-- No definition is opened a second time. -/
  later : ∀ id, e'.defining = some id → e.defining = some id ∨ (e.dict.size : ℤ) ≤ id

variable {e e' e'' : Engine}

lemma Grows.same (hdict : e'.dict = e.dict) (h : e'.defining = e.defining ∨ e'.defining = none) :
    e.Grows e' where
  size := Nat.le_of_eq (by rw [hdict])
  kept := by
    intro id f hget
    exact ⟨f, by rw [hdict, hget], f.extends_refl, fun _ => rfl⟩
  later := by
    intro id hid
    rcases h with h | h
    · exact Or.inl (h ▸ hid)
    · simp [h] at hid

lemma Grows.trans (h : e.Grows e') (h' : e'.Grows e'') : e.Grows e'' where
  size := Nat.le_trans h.size h'.size
  kept := by
    intro id f hget
    obtain ⟨g, hg, hextends, hsame⟩ := h.kept id f hget
    obtain ⟨g', hg', hextends', hsame'⟩ := h'.kept id g hg
    refine ⟨g', hg', hextends.trans hextends', fun hclosed => ?_⟩
    -- what is not open in `e` is not open in `e'` either
    have hclosed' : e'.defining ≠ some id := by
      intro hopen
      rcases h.later id hopen with hopen | hsize
      · exact hclosed hopen
      · exact absurd (Dictionary.bounds_of_get? hget).2 (Int.not_lt.mpr hsize)
    rw [hsame' hclosed', hsame hclosed]
  later := by
    intro id hid
    have hsize := h.size
    rcases h'.later id hid with hid | hid
    · exact h.later id hid
    · exact Or.inr (by omega)

/-- No name is taken twice, and the names that were added are words. -/
structure Filed (e : Engine) : Prop where
  names : (e.dict.functions.map (·.name)).Nodup
  words : ∀ id f, firstUserId ≤ id → e.dict.get? id = some f → f.name.IsWord

end Engine

/-! ## One change -/

namespace Update

variable {e e' : Engine}

lemma grows (h : Update e e') : e.Grows e' := by
  cases h with
  | left => exact .same rfl (Or.inr rfl)
  | @opened name hname hnew =>
      refine ⟨by simp, fun id f hget => ⟨f, ?_, f.extends_refl, fun _ => rfl⟩, ?_⟩
      · rw [Dictionary.get?_add, if_neg, hget]
        rintro rfl
        exact Int.lt_irrefl _ (Dictionary.bounds_of_get? hget).2
      · rintro id ⟨⟩
        exact Or.inr (Int.le_refl _)
  | @emitted target code hdefining =>
      refine ⟨by simp, ?_, fun id hid => Or.inl hid⟩
      intro id f hget
      simp only [Dictionary.get?_emit, hget, Option.map_some]
      split_ifs with htarget
      · subst htarget
        refine ⟨_, rfl, ⟨rfl, rfl, rfl, List.prefix_append _ _⟩, fun hclosed => ?_⟩
        exact absurd hdefining hclosed
      · exact ⟨f, rfl, f.extends_refl, fun _ => rfl⟩
  | _ => exact .same rfl (Or.inl rfl)

lemma filed (h : Update e e') (he : e.Filed) : e'.Filed := by
  cases h with
  | @opened name hname hnew =>
      refine ⟨Dictionary.nodup_add he.names hnew, ?_⟩
      intro id f hid hget
      rw [Dictionary.get?_add] at hget
      split_ifs at hget
      · cases hget
        exact hname
      · exact he.words id f hid hget
  | @emitted target code hdefining =>
      refine ⟨by simpa using he.names, ?_⟩
      intro id f hid hget
      rw [Dictionary.get?_emit] at hget
      split_ifs at hget
      · obtain ⟨g, hg, rfl⟩ := Option.map_eq_some_iff.mp hget
        exact he.words id g hid hg
      · exact he.words id f hid hget
  | _ => exact ⟨he.names, he.words⟩

end Update

namespace Machine

variable {m m' m₀ : Machine}

/-! ## A whole session -/

lemma Changes.grows (h : Changes m m') : m.engine.Grows m'.engine := by
  refine h.keeps (P := fun m' => m.engine.Grows m'.engine) (.same rfl (Or.inl rfl)) ?_
  intro m1 m2 hgrows hchange
  cases hchange with
  | engine hupdate => exact hgrows.trans hupdate.grows
  | _ => exact hgrows

lemma Changes.filed (h : Changes m m') (hm : m.engine.Filed) : m'.engine.Filed := by
  refine h.keeps (P := fun m => m.engine.Filed) hm ?_
  intro m1 m2 hfiled hchange
  cases hchange with
  | engine hupdate => exact hupdate.filed hfiled
  | _ => exact hfiled

/-- The machine `m'` comes up later than `m` in the same session: between two instructions or two
words of a line, or where a run is broken off; perhaps in a later run, on input that was queued
since. -/
inductive Later (m : Machine) : Machine → Prop where
  | here : Later m m
  | exec {m' : Machine} (h : Later m m') (fuel : ℕ) (context : Context) :
      Later m (Result.machine (exec fuel context (m'.indent true)))
  | word {m' : Machine} (h : Later m m') : Later m (Result.machine (read m'))
  | run {m' : Machine} (h : Later m m') (fuel : ℕ) (context : Context) :
      Later m (run fuel context m').2
  | feed {m' : Machine} (h : Later m m') (stream : Stream) : Later m (m'.feed stream)

lemma Later.changes (h : Later m m') (hm : m.input.Tidy) : Changes m m' := by
  induction h with
  | here => exact .refl
  | @exec m' _ fuel context ih =>
      have htidy : (m'.indent true).input.Tidy := ih.tidy hm
      exact ih.trans ((changes_indent true m').trans (changes_exec fuel context htidy))
  | @word m' _ ih => exact ih.trans (proceeds_read m' (ih.tidy hm))
  | run _ fuel context ih => exact ih.trans (changes_run fuel context (ih.tidy hm))
  | feed _ stream ih => exact ih.tail (.input fun htidy => htidy.congr rfl)

lemma Fresh.filed (h : m.Fresh) : m.engine.Filed :=
  ⟨h.isSound.engine.names, fun id f hid hget => (h.isSound.engine.words id f hid hget).name⟩

/-- A function that was there from the start is never changed: no definition is open at the
start. -/
lemma Fresh.builtins (h : m₀.Fresh) (hgrows : m₀.engine.Grows m.engine) :
    m₀.engine.dict.functions <+: m.engine.dict.functions := by
  have hnone : m₀.engine.defining = none := by
    rw [h.engine]
    rfl
  refine List.prefix_iff_getElem?.mpr fun i hi => ?_
  obtain ⟨f, hf, -, hsame⟩ := hgrows.kept i _ (List.getElem?_eq_getElem hi)
  rw [hsame (by simp [hnone])] at hf
  exact hf

/-! ## The open definition -/

/-- Code that the compiler is still adding to has no return. -/
lemma no_return_of_pending {id : FuncId} {code : List Code} (h : Pending id code) :
    ∀ item ∈ Code.items code, item.1 ≠ .finish ∧ item.1 ≠ .plain .ret := by
  obtain ⟨body, -, rfl⟩ := h
  intro item hitem
  have hmem := List.mem_map_of_mem (f := Prod.fst) hitem
  have hitems := Instr.itemsAfter_assemble_append body [] 0
  rw [List.append_nil] at hitems
  rw [Code.items, hitems] at hmem
  simp only [Code.itemsAfter, List.map_nil, List.append_nil, List.mem_map] at hmem
  obtain ⟨i, -, hi⟩ := hmem
  rw [← hi]
  cases i <;> simp [Instr.item]

variable {m m' m₀ : Machine}

/-- **The dictionary only grows, and is unambiguous.**

* From any state to a later one, in the same run or another, every function keeps its id, its name
  and its code, but for the one under definition, to whose code may be added; a name that is known
  stays known by its id.
* The functions of a new machine stay first and as they are.  No name stands twice, so each gives
  the id of its function, and the names of all other functions are words.
* A definition is open exactly in compile mode.  It is the newest function, and no instruction of
  its code is a return.  This is said of the states of one run only: if the input ends, or the
  session is stopped, while the name of a new word is read, the machine is left in compile mode
  without a definition, and that is where the session is over. -/
theorem dictionary_grows {settings : List Setting} (hnew : create settings = .ok m₀) :
    (∀ m m', m₀.Later m → m.Later m' →
      (∀ id f, m.engine.dict.get? id = some f → ∃ f', m'.engine.dict.get? id = some f' ∧
        f.Extends f' ∧ (m.engine.defining ≠ some id → f'.code = f.code)) ∧
      ∀ name id, m.engine.dict.find? name = some id → m'.engine.dict.find? name = some id) ∧
    (∀ m, m₀.Later m →
      m₀.engine.dict.size = 16 ∧ m₀.engine.dict.functions <+: m.engine.dict.functions ∧
      (m.engine.dict.functions.map (·.name)).Nodup ∧
      (∀ id f, m.engine.dict.get? id = some f → m.engine.dict.find? f.name = some id) ∧
      ∀ id f, firstUserId ≤ id → m.engine.dict.get? id = some f →
        f.name ≠ [] ∧ f.name.hasSeparator = false) ∧
    ∀ m, m₀.Reaches m →
      (m.engine.mode = .compile ↔ m.engine.defining ≠ none) ∧
      ∀ id, m.engine.defining = some id → firstUserId ≤ id ∧ id + 1 = m.engine.dict.size ∧
        ∃ f, m.engine.dict.get? id = some f ∧
          ∀ item ∈ Code.items f.code, item.1 ≠ .finish ∧ item.1 ≠ .plain .ret := by
  have hfresh := fresh_create hnew
  have htidy := hfresh.isSound.input
  have hfiled : ∀ m, m₀.Later m → m.engine.Filed := fun m hm =>
    (hm.changes htidy).filed hfresh.filed
  refine ⟨?_, ?_, ?_⟩
  · intro m m' hm hm'
    have hchanges := hm'.changes ((hm.changes htidy).tidy htidy)
    have hnames' := (hchanges.filed (hfiled m hm)).names
    constructor
    · intro id f hget
      obtain ⟨f', hf', hextends, hsame⟩ := hchanges.grows.kept id f hget
      exact ⟨f', hf', hextends, fun hclosed => by rw [hsame hclosed]⟩
    · intro name id hfind
      obtain ⟨f, hget, rfl⟩ := Dictionary.get?_of_find? hfind
      obtain ⟨f', hf', hextends, -⟩ := hchanges.grows.kept id f hget
      rw [← hextends.name]
      exact Dictionary.find?_name hnames' hf'
  · intro m hm
    refine ⟨by rw [hfresh.engine]; rfl, hfresh.builtins (hm.changes htidy).grows,
      (hfiled m hm).names, fun id f => Dictionary.find?_name (hfiled m hm).names, ?_⟩
    intro id f hid hget
    have hword := (hfiled m hm).words id f hid hget
    exact ⟨hword.nonempty, hword.unbroken⟩
  · intro m hm
    have hsound := (isSound_of_reaches hfresh.isSound hm).engine
    refine ⟨by rw [hsound.mode, Option.isSome_iff_ne_none], ?_⟩
    intro id hdefining
    obtain ⟨hid, hlast⟩ := hsound.newest id hdefining
    obtain ⟨f, hget, -⟩ := hsound.opened? hdefining
    have hpending := (hsound.words id f hid hget).pending hdefining
    exact ⟨hid, hlast, f, hget, no_return_of_pending hpending⟩

/-- A definition when it is opened, and when it is closed. -/
theorem dictionary_grows_of_definition :
    ∃ m₀ m m', create [.written [] (.ok (utf8 ": f 5 ;\n"))] = .ok m₀ ∧ m₀.Later m ∧ m.Later m' ∧
      m.engine.defining = some 16 ∧ m.engine.dict.find? (utf8 "f") = some 16 ∧
      m'.engine.dict.find? (utf8 "f") = some 16 ∧
      ∃ f f', m.engine.dict.get? 16 = some f ∧ m'.engine.dict.get? 16 = some f' ∧ f.Extends f' ∧
        f.code = [] ∧ f'.code = [3, 5, 5] := by
  obtain ⟨m₀, hnew⟩ : ∃ m₀, create [.written [] (.ok (utf8 ": f 5 ;\n"))] = .ok m₀ := ⟨_, rfl⟩
  obtain ⟨m1, hcolon, m, hopen, m2, hliteral, m', hclose, hdefining, hfind, ⟨f, hf, hcode⟩,
      ⟨f', hf', hcode'⟩⟩ :
      ∃ m1, nextWord m₀ = .ok (some (utf8 ":")) m1 ∧ ∃ m, dispatch (utf8 ":") m1 = .ok true m ∧
        ∃ m2, read m = .ok true m2 ∧ ∃ m', read m2 = .ok true m' ∧
        m.engine.defining = some 16 ∧ m.engine.dict.find? (utf8 "f") = some 16 ∧
        (∃ f, m.engine.dict.get? 16 = some f ∧ f.code = []) ∧
        ∃ f', m'.engine.dict.get? 16 = some f' ∧ f'.code = [3, 5, 5] := by
    cases hnew
    refine ⟨_, rfl, _, (dispatch_of_call rfl rfl rfl).trans
      (bind_of_ok (define_new (nextName_of_word rfl) rfl)), ?_⟩
    iterate 2 refine ⟨_, rfl, ?_⟩
    exact ⟨rfl, rfl, ⟨_, rfl, rfl⟩, ⟨_, rfl, rfl⟩⟩
  have hm : m₀.Later m := by
    have h := Later.word (m := m₀) .here
    rwa [show read m₀ = .ok true m from (bind_of_ok hcolon).trans hopen] at h
  have hm' : m.Later m' := by
    have h := Later.word (m := m) .here
    rw [hliteral] at h
    have h' := h.word
    rwa [Result.machine, hclose] at h'
  obtain ⟨hkept, hfound⟩ := (dictionary_grows hnew).1 m m' hm hm'
  obtain ⟨g, hg, hextends, -⟩ := hkept 16 f hf
  rw [hf'] at hg
  cases hg
  exact ⟨m₀, m, m', hnew, hm, hm', hdefining, hfind, hfound _ _ hfind, f, f', hf, hf', hextends,
    hcode, hcode'⟩

end Machine

end ColonMachine
