import ColonMachine.Proofs.Definitions
import ColonMachine.Proofs.Spelling
import ColonMachine.Proofs.View

/-!
# Listings can be typed again

What `see` prints of a finished word is one line, and its words are `:`, the name, one word for
every instruction of the body, and `;` (`listed_eq_spaced`).  Suppose that a machine which has the
functions older than the word, and no others, reads that line.  Each of its words is then looked up
in a dictionary that has the same names under the same ids (`Rebuilds`), so a call is compiled to
the same call.  A literal is compiled to the same literal unless its decimal form is the name of one
of the functions, for names are looked up before numbers are read (`translates_push_iff`).

That is the only way in which the line can come to something else, and then it does: a word with
another instruction or, where no call can be compiled, a definition that is left open.
-/

namespace ColonMachine

/-! ## Listings -/

lemma Code.ofCallee_callee (c : Code) : Code.ofCallee (Code.callee c) = c := by
  apply Int8.toBitVec_inj.mp
  change BitVec.ofInt 8 (c.toBitVec.toNat : ℤ) = c.toBitVec
  rw [BitVec.ofInt_natCast, BitVec.ofNat_toNat, BitVec.setWidth_eq]

/-- The last instruction of the function is a return. -/
def Function.Closed (f : Function) : Prop :=
  ((Code.items f.code).map (·.1)).getLast? = some .finish

/-- The literals that a listing of a finished word shows are those of its body. -/
lemma Instr.push_mem_items {body : List Instr} {n : Code} :
    Item.operand .push n ∈ (Code.items (assemble body ++ [Opcode.ret.code])).map (·.1) ↔
      Instr.push n ∈ body := by
  rw [items_assemble]
  simp only [List.mem_append, List.mem_map, List.mem_singleton, reduceCtorEq, or_false]
  constructor
  · rintro ⟨i, hi, hitem⟩
    cases i <;> cases hitem
    exact hi
  · intro hn
    exact ⟨_, hn, rfl⟩

namespace Sound

variable {e : Engine} {id : FuncId} {f : Function} {body : List Instr} {i : Instr} {w : Text}

lemma body_of_closed (h : Sound e) (hid : firstUserId ≤ id) (hget : e.dict.get? id = some f)
    (hclosed : f.Closed) :
    ∃ body, Instr.Below id body ∧ f.code = Instr.assemble body ++ [Opcode.ret.code] := by
  have hword := h.words id f hid hget
  have hdefining : e.defining ≠ some id := by
    intro hdefining
    obtain ⟨body, -, hcode⟩ := hword.pending hdefining
    have hitems := Instr.itemsAfter_assemble_append body [] 0
    rw [List.append_nil] at hitems
    rw [Function.Closed, Code.items, hcode, hitems] at hclosed
    -- no instruction of a body is a return
    have hmem := List.mem_of_getLast? hclosed
    simp only [Code.itemsAfter, List.map_nil, List.append_nil, List.mem_map] at hmem
    obtain ⟨i, -, hi⟩ := hmem
    cases i <;> cases hi
  rcases hword.settled hdefining with hcode | hbody
  · rw [Function.Closed, hcode] at hclosed
    cases hclosed
  · exact hbody

lemma isWord_name (h : Sound e) (hget : e.dict.get? id = some f) (hboot : id ≠ bootId) :
    f.name.IsWord := by
  by_cases hid : firstUserId ≤ id
  · exact (h.words id f hid hget).name
  · rw [h.get?_builtin (Int.not_le.mp hid)] at hget
    obtain ⟨i, rfl⟩ := Int.eq_ofNat_of_zero_le (Dictionary.bounds_of_get? hget).1
    have hall : ∀ entry ∈ Dictionary.initial.functions.zipIdx,
        entry.2 = 11 ∨ entry.1.name ≠ [] ∧ entry.1.name.hasSeparator = false := by decide
    have hmem : (f, i) ∈ Dictionary.initial.functions.zipIdx :=
      List.mem_zipIdx_iff_getElem?.mpr hget
    rcases hall _ hmem with hi | ⟨hne, hsep⟩
    · exact absurd (congrArg Int.ofNat hi) hboot
    · exact ⟨hne, hsep⟩

lemma immediate_iff (h : Sound e) (hget : e.dict.get? id = some f) (hboot : id ≠ bootId) :
    f.immediate = true ↔ id = endDefineId := by
  by_cases hid : id < firstUserId
  · exact (h.builtin_cases hid hboot hget).2.1
  · have hword := h.words id f (Int.not_lt.mp hid) hget
    rw [hword.immediate]
    constructor
    · intro htrue
      cases htrue
    · rintro rfl
      exact absurd (by decide) hid

lemma name_eq_semicolon_iff (h : Sound e) (hget : e.dict.get? id = some f) :
    f.name = utf8 ";" ↔ id = endDefineId := by
  obtain ⟨g, hg, hname⟩ : ∃ g, Dictionary.initial.get? endDefineId = some g ∧ g.name = utf8 ";" :=
    ⟨_, rfl, rfl⟩
  rw [← h.get?_builtin (by decide)] at hg
  constructor
  · intro heq
    have hfind := h.find?_name hget
    rw [heq, ← hname, h.find?_name hg] at hfind
    exact (Option.some.inj hfind).symm
  · rintro rfl
    rw [hg] at hget
    cases hget
    exact hname

/-- A call is listed as the name of what it calls. -/
lemma text_call (h : Sound e) (hget : e.dict.get? id = some f) {c : Code}
    (hle : Code.callee c ≤ id) (hboot : Code.callee c ≠ bootId) :
    ∃ g, e.dict.get? (Code.callee c) = some g ∧ g.name.IsWord ∧
      (Instr.call c).item.text e.dict = g.name := by
  have hlow : 0 ≤ Code.callee c := Int.natCast_nonneg _
  obtain ⟨g, hg⟩ := Dictionary.exists_get? hlow
    (Int.lt_of_le_of_lt hle (Dictionary.bounds_of_get? hget).2)
  have hword := h.isWord_name hg hboot
  refine ⟨g, hg, hword, ?_⟩
  simp only [Instr.item, Item.text, Dictionary.nameOf, hg, hword.asName]

/-- An instruction is listed as a word, and not as the end of a definition. -/
lemma text_item (h : Sound e) (hget : e.dict.get? id = some f) (hbelow : Instr.Below id body)
    (hi : i ∈ body) : (i.item.text e.dict).IsWord ∧ i.item.text e.dict ≠ utf8 ";" := by
  cases i with
  | call c =>
      obtain ⟨hle, hboot, hend⟩ := hbelow c hi
      obtain ⟨g, hg, hword, htext⟩ := h.text_call hget hle hboot
      rw [htext]
      exact ⟨hword, fun hname => hend ((h.name_eq_semicolon_iff hg).mp hname)⟩
  | push n =>
      refine ⟨Text.isWord_ofInt _, ?_⟩
      intro htext
      have hread := Text.readCell_ofInt (n := n.toInt) (by have := n.le_toInt; omega)
        (by have := n.toInt_lt; omega)
      rw [show Text.ofInt n.toInt = utf8 ";" from htext] at hread
      cases hread

end Sound

namespace Dictionary

variable {d d' : Dictionary} {id i : FuncId} {f g : Function} {body : List Instr}

/-- The line that `see` prints of a function. -/
def listed (d : Dictionary) (id : FuncId) : Text := d.definition id ++ [Text.newline]

/-- The listing of a finished word has its words in their order. -/
lemma listed_eq_spaced (hget : d.get? id = some f) (hname : f.name.IsWord)
    (hnative : f.native = none) (himmediate : f.immediate = false)
    (hcode : f.code = Instr.assemble body ++ [Opcode.ret.code]) :
    d.listed id = Text.spaced (utf8 ":")
      (f.name :: (body.map fun i => i.item.text d) ++ [utf8 ";"]) := by
  have hempty : f.code.isEmpty = false := by rw [hcode]; simp
  have hitems : ((Code.items f.code).flatMap fun item => utf8 " " ++ item.1.text d)
      = ((body.map fun i => i.item.text d) ++ [utf8 ";"]).flatMap (Text.space :: ·) := by
    have hmap :=
      List.flatMap_map (fun item : Item × ℕ => item.1) (fun item => utf8 " " ++ item.text d)
      (Code.items f.code)
    rw [← hmap, hcode, Instr.items_assemble]
    simp only [List.flatMap_append, List.flatMap_map]
    rfl
  rw [listed, definition, hget]
  simp only [hnative, hempty, himmediate, hitems, hname.asName]
  rw [Text.spaced, List.cons_append, List.flatMap_cons]
  simp only [Option.isSome_none, Bool.false_eq_true, if_false, List.append_nil]
  rw [show utf8 ": " = utf8 ":" ++ [Text.space] from rfl]
  simp

/-- The dictionary `d'` has the names of `d` up to `id`, and no others. -/
structure Rebuilds (d' d : Dictionary) (id : FuncId) : Prop where
  get : ∀ i g, i ≤ id → d.get? i = some g →
    ∃ g', d'.get? i = some g' ∧ g'.name = g.name ∧ g'.immediate = g.immediate
  only : ∀ i g', d'.get? i = some g' → i ≤ id ∧ ∃ g, d.get? i = some g ∧ g.name = g'.name

lemma get?_take (h : d'.functions = d.functions.take id.toNat) (hid : 0 ≤ id) (i : FuncId) :
    d'.get? i = if i < id then d.get? i else none := by
  obtain ⟨n, rfl⟩ := Int.eq_ofNat_of_zero_le hid
  cases i with
  | negSucc i =>
      rw [if_pos (Int.lt_of_lt_of_le (Int.negSucc_lt_zero i) hid)]
      rfl
  | ofNat i =>
      have hiff : Int.ofNat i < n ↔ i < n := Int.ofNat_lt
      simp only [get?, h, List.getElem?_take, hiff]
      rfl

lemma nextId_take (h : d'.functions = d.functions.take id.toNat) (hget : d.get? id = some f) :
    d'.nextId = id := by
  obtain ⟨hlow, hhigh⟩ := bounds_of_get? hget
  obtain ⟨n, rfl⟩ := Int.eq_ofNat_of_zero_le hlow
  have hn : n < d.functions.length := Int.ofNat_lt.mp hhigh
  simp [nextId, size, h, Nat.min_eq_left (Nat.le_of_lt hn)]

lemma find?_take (h : d'.functions = d.functions.take id.toNat)
    (hnames : (d.functions.map (·.name)).Nodup) (hget : d.get? id = some f) :
    d'.find? f.name = none := by
  cases hfind : d'.find? f.name with
  | none => rfl
  | some i =>
      obtain ⟨g, hg, hname⟩ := get?_of_find? hfind
      rw [get?_take h (bounds_of_get? hget).1] at hg
      split_ifs at hg with hlt
      have hi := find?_name hnames hg
      rw [hname, find?_name hnames hget] at hi
      exact absurd (Option.some.inj hi) (Int.ne_of_gt hlt)

lemma rebuilds_add (h : d'.functions = d.functions.take id.toNat) (hget : d.get? id = some f)
    (himmediate : f.immediate = false) : (d'.add f.name).Rebuilds d id := by
  have hid := (bounds_of_get? hget).1
  have hget' : ∀ i, (d'.add f.name).get? i
      = if i = id then some { name := f.name } else if i < id then d.get? i else none := by
    intro i
    rw [get?_add, nextId_take h hget, get?_take h hid]
  constructor
  · intro i g hi hg
    rw [hget']
    split_ifs with heq hlt
    · subst heq
      rw [hget] at hg
      cases hg
      exact ⟨_, rfl, rfl, himmediate.symm⟩
    · exact ⟨g, hg, rfl, rfl⟩
    · exact absurd (Int.lt_iff_le_and_ne.mpr ⟨hi, heq⟩) hlt
  · intro i g' hg'
    rw [hget'] at hg'
    split_ifs at hg' with heq hlt
    · subst heq
      cases hg'
      exact ⟨Int.le_refl i, f, hget, rfl⟩
    · exact ⟨Int.le_of_lt hlt, g', hg', rfl⟩

end Dictionary

namespace Machine

variable {m m' m₀ : Machine} {w : Text} {ws : List Text} {id target : FuncId} {f g : Function}
  {d d' : Dictionary} {body : List Instr} {i j : Instr}

/-! ## What the words are compiled to -/

/-- Code that is added to a function makes no difference to what a word is compiled to. -/
lemma translates_emit (d : Dictionary) (target : FuncId) (code : List Code) (w : Text) (i : Instr) :
    Translates (d.emit target code) w i ↔ Translates d w i := by
  have hnone : lookup? (d.emit target code) w = none ↔ lookup? d w = none := by
    simp only [lookup?, Option.bind_eq_bind, Dictionary.find?_emit, Dictionary.get?_emit]
    cases d.find? w with
    | none => simp
    | some id =>
        simp only [Option.bind_some, Option.pure_def]
        split_ifs <;> cases d.get? id <;> simp
  have hsome : ∀ id, (∃ g, lookup? (d.emit target code) w = some (id, g) ∧ g.immediate = false) ↔
      ∃ g, lookup? d w = some (id, g) ∧ g.immediate = false := by
    intro id
    simp only [lookup?_eq_some, Dictionary.find?_emit, Dictionary.get?_emit]
    split_ifs with heq
    · cases d.get? id <;> simp [Function.emit]
    · rfl
  constructor
  · intro h
    cases h with
    | call hlookup himmediate hid =>
        obtain ⟨g, hlookup, himmediate⟩ := (hsome _).mp ⟨_, hlookup, himmediate⟩
        exact .call hlookup himmediate hid
    | push hlookup hread => exact .push (hnone.mp hlookup) hread
  · intro h
    cases h with
    | call hlookup himmediate hid =>
        obtain ⟨g, hlookup, himmediate⟩ := (hsome _).mpr ⟨_, hlookup, himmediate⟩
        exact .call hlookup himmediate hid
    | push hlookup hread => exact .push (hnone.mpr hlookup) hread

section Rebuilds

variable {e : Engine} (h : Sound e) (hsound : Sound m.engine)
  (hrebuilds : m.engine.dict.Rebuilds e.dict id) (hget : e.dict.get? id = some f)

include h hsound hrebuilds hget in
/-- A call is compiled to the same call. -/
lemma translates_call {c : Code} (hle : Code.callee c ≤ id) (hboot : Code.callee c ≠ bootId)
    (hend : Code.callee c ≠ endDefineId) :
    Translates m.engine.dict ((Instr.call c).item.text e.dict) (.call c) := by
  obtain ⟨g, hg, -, htext⟩ := h.text_call hget hle hboot
  obtain ⟨g', hg', hname, himmediate⟩ := hrebuilds.get _ g hle hg
  have hfalse : g.immediate = false := by
    rw [← Bool.not_eq_true, h.immediate_iff hg hboot]
    exact hend
  have hlookup := lookup?_name hsound hg'
  rw [hname] at hlookup
  have hmax : Code.callee c ≤ maxCallId := by
    have := c.toUInt8.toNat_lt
    simp only [Code.callee, maxCallId]
    omega
  have hcall := Translates.call hlookup (himmediate.trans hfalse) hmax
  rwa [Code.ofCallee_callee, ← htext] at hcall

include hsound hrebuilds in
/-- A literal is compiled to the same literal unless its decimal form is a name. -/
lemma translates_push_iff (n : Code) :
    Translates m.engine.dict (Text.ofInt n.toInt) (.push n) ↔
      ∀ i g, i ≤ id → e.dict.get? i = some g → g.name ≠ Text.ofInt n.toInt := by
  constructor
  · intro htranslates i g hi hg hname
    obtain ⟨g', hg', hname', -⟩ := hrebuilds.get i g hi hg
    have hlookup' := lookup?_name hsound hg'
    rw [hname', hname] at hlookup'
    generalize hj : Instr.push n = j at htranslates
    cases htranslates with
    | call => cases hj
    | push hlookup _ =>
        rw [hlookup] at hlookup'
        cases hlookup'
  · intro hnames
    have hlookup : lookup? m.engine.dict (Text.ofInt n.toInt) = none := by
      cases hlookup : lookup? m.engine.dict (Text.ofInt n.toInt) with
      | none => rfl
      | some entry =>
          obtain ⟨i, g'⟩ := entry
          obtain ⟨hget', hname'⟩ := get?_of_lookup? hlookup
          obtain ⟨hle, g, hg, hname⟩ := hrebuilds.only _ _ hget'
          exact absurd (hname.trans hname') (hnames _ g hle hg)
    have hread := Text.readCell_ofInt (n := n.toInt) (by have := n.le_toInt; omega)
      (by have := n.toInt_lt; omega)
    have hn : (Int32.ofInt n.toInt).toInt8 = n := by
      rw [Int32.ofInt_int8ToInt, Int8.toInt8_toInt32]
    have := Translates.push hlookup hread
    rwa [hn] at this

include h hsound hrebuilds hget in
/-- The words that a body is listed as come to that body exactly if every literal does. -/
lemma translates_body_iff (hbelow : Instr.Below id body) :
    List.Forall₂ (Translates m.engine.dict) (body.map fun i => i.item.text e.dict) body ↔
      ∀ n, Instr.push n ∈ body →
        ∀ i g, i ≤ id → e.dict.get? i = some g → g.name ≠ Text.ofInt n.toInt := by
  rw [List.forall₂_map_left_iff, List.forall₂_same]
  constructor
  · intro hall n hn
    exact (translates_push_iff hsound hrebuilds n).mp (hall _ hn)
  · intro hnames i hi
    cases i with
    | call c =>
        obtain ⟨hle, hboot, hend⟩ := hbelow c hi
        exact translates_call h hsound hrebuilds hget hle hboot hend
    | push n => exact (translates_push_iff hsound hrebuilds n).mpr (hnames n hi)

end Rebuilds

/-! ## Typing a definition -/

/-- In the prompt instruction the definition `g` is open under the id `id`, and `ws` is left of the
line. -/
structure Typing (id : FuncId) (g : Function) (ws : List Text) (m : Machine) : Prop where
  sound : m.IsSound
  control : m.engine.control = onPrompt
  running : m.engine.running = true
  defining : m.engine.defining = some id
  get : m.engine.dict.get? id = some g
  buffer : m.input.buffer = some ws

/-- After a diagnostic the prompt instruction is over, and the engine is what it was. -/
lemma engine_of_report {m1 : Machine} {message : Text} (hrunning : m.engine.running = true)
    (hengine : m1.engine = m.engine)
    (hread : read m = (report message >>= fun _ => pure true) m1) :
    (Result.machine (prompt m)).engine = m.engine := by
  cases hreport : report message m1 with
  | error i m2 =>
      rw [bind_of_error hreport] at hread
      rw [prompt_broken hrunning hread, Result.machine, ((talks_report _ m1).of_error hreport).2,
        hengine]
  | ok _ m2 =>
      rw [bind_of_ok hreport] at hread
      have hengine2 := ((talks_report _ m1).of_ok hreport).1.trans hengine
      obtain ⟨m3, hnext, hengine3, -⟩ :=
        nextWord_of_mark ((line_of_report message).of_ok hreport).1
      rw [prompt_again hrunning hread,
        prompt_ended (by rw [hengine2, hrunning]) (bind_of_ok hnext), Result.machine, hengine3,
        hengine2]

/-- The next word is compiled, or it cannot be, and the definition stays as it is. -/
lemma Typing.word (h : Typing id g (w :: ws) m) (hw : w ≠ utf8 ";") :
    (∃ i m', Translates m.engine.dict w i ∧ prompt m = prompt m' ∧ m'.console = m.console ∧
      m'.engine.dict = m.engine.dict.emit id i.bytes ∧ Typing id (g.emit i.bytes) ws m') ∨
    (∀ i, ¬ Translates m.engine.dict w i) ∧ (Result.machine (prompt m)).engine = m.engine := by
  obtain ⟨m1, hnext, hengine, hconsole, hinput⟩ := nextWord_of_word h.buffer
  have hword : w.IsWord := h.sound.input w (by simp [Source.buffered, h.buffer])
  have hm1 := talks_nextWord.isSound h.sound hnext
  have hat : m1.engine.control = onPrompt := by rw [hengine, h.control]
  have hmode : m1.engine.mode = .compile := hm1.engine.mode.mpr (by rw [hengine, h.defining]; rfl)
  have hread : read m = dispatch w m1 := bind_of_ok hnext
  have hgo : ∀ {i : Instr} {target : FuncId} {m2 : Machine}, Translates m1.engine.dict w i →
      m1.engine.defining = some target →
      Becomes m1 { m1.engine with dict := m1.engine.dict.emit target i.bytes } m2 →
      dispatch w m1 = .ok true m2 →
      ∃ i m', Translates m.engine.dict w i ∧ prompt m = prompt m' ∧ m'.console = m.console ∧
        m'.engine.dict = m.engine.dict.emit id i.bytes ∧ Typing id (g.emit i.bytes) ws m' := by
    intro i target m2 hi htarget hm2 hdispatch
    rw [hengine, h.defining] at htarget
    cases htarget
    obtain ⟨hsound, hat2⟩ := (isSound_dispatch hm1 hat hword).of_ok hdispatch
    have hengine2 : m2.engine = { m.engine with dict := m.engine.dict.emit id i.bytes } := by
      rw [hm2.engine, hengine]
    refine ⟨i, m2, by rwa [hengine] at hi, prompt_again h.running (hread.trans hdispatch),
      hm2.console.trans hconsole, by rw [hengine2], hsound, hat2 rfl, ?_, ?_, ?_, ?_⟩
    · rw [hengine2]
      exact h.running
    · rw [hengine2]
      exact h.defining
    · rw [hengine2, Dictionary.get?_emit, if_pos rfl, h.get]
      rfl
    · rw [hm2.input, hinput]
  cases dispatching hm1.engine hword with
  | @close m2 id' f hlookup himmediate =>
      obtain ⟨hget', hname⟩ := get?_of_lookup? hlookup
      have hboot := ne_boot_of_isWord hm1.engine hword hget' hname
      have hid := (hm1.engine.immediate_iff hget' hboot).mp himmediate
      exact absurd (hname.symm.trans ((hm1.engine.name_eq_semicolon_iff hget').mpr hid)) hw
  | run _ _ hexecute _ _ => rw [hmode] at hexecute; cases hexecute
  | number _ _ hexecute _ => rw [hmode] at hexecute; cases hexecute
  | compile hlookup himmediate _ htarget hid _ hm2 hdispatch =>
      exact .inl (hgo (.call hlookup himmediate hid) htarget hm2 hdispatch)
  | literal hlookup hcell _ htarget hm2 hdispatch =>
      exact .inl (hgo (.push hlookup hcell) htarget hm2 hdispatch)
  | refuse hlookup _ _ hid hdispatch =>
      refine .inr ⟨?_, engine_of_report h.running hengine (hread.trans hdispatch)⟩
      intro i hi
      rw [hengine] at hlookup
      cases hi with
      | call hlookup' _ hid' =>
          rw [hlookup] at hlookup'
          cases hlookup'
          exact absurd hid (Int.not_lt.mpr hid')
      | push hlookup' _ =>
          rw [hlookup] at hlookup'
          cases hlookup'
  | unknown hlookup hcell hm2 hdispatch =>
      refine .inr ⟨?_, engine_of_report h.running (hm2.engine.trans hengine)
        (hread.trans hdispatch)⟩
      intro i hi
      rw [hengine] at hlookup
      cases hi with
      | call hlookup' _ _ =>
          rw [hlookup] at hlookup'
          cases hlookup'
      | push _ hcell' =>
          rw [hcell] at hcell'
          cases hcell'

/-- At `;` the definition is closed, and then the line is over. -/
lemma Typing.semicolon (h : Typing id g [utf8 ";"] m) :
    ∃ m', prompt m = .ok () m' ∧ m'.console = m.console ∧
      m'.engine.dict.get? id = some (g.emit [Opcode.ret.code]) := by
  obtain ⟨m1, hnext, hengine, hconsole, hinput⟩ := nextWord_of_word h.buffer
  have hm1 := talks_nextWord.isSound h.sound hnext
  obtain ⟨m2, hdispatch, hm2⟩ := dispatch_semicolon hm1
  have hread : read m = .ok true m2 := read_of_word hnext hdispatch
  have hdefining : m1.engine.defining = some id := by rw [hengine, h.defining]
  have hengine2 := closed_of_dispatch hm1 hdefining hdispatch
  obtain ⟨m3, hnext3, hengine3, hconsole3, -⟩ :=
    nextWord_of_mark (m := m2) (by rw [hm2.input, hinput])
  have hrunning : m2.engine.running = true := by
    rw [hengine2, hengine]
    exact h.running
  refine ⟨m3, ?_, hconsole3.trans (hm2.console.trans hconsole), ?_⟩
  · rw [prompt_again h.running hread, prompt_ended hrunning (bind_of_ok hnext3)]
  · rw [hengine3, hengine2, hengine, Dictionary.get?_emit, if_pos rfl, h.get]
    rfl

/-- **If every word stands for an instruction, the definition is finished with these.** -/
lemma Typing.finished (h : Typing id g (ws ++ [utf8 ";"]) m) (hws : utf8 ";" ∉ ws)
    (hbody : List.Forall₂ (Translates m.engine.dict) ws body) :
    ∃ m', prompt m = .ok () m' ∧ m'.console = m.console ∧
      m'.engine.dict.get? id = some (g.emit (Instr.assemble body ++ [Opcode.ret.code])) := by
  induction ws generalizing m g body with
  | nil =>
      cases hbody
      exact h.semicolon
  | cons w ws ih =>
      rw [List.mem_cons, not_or] at hws
      cases hbody with
      | @cons _ i _ body hi hrest =>
          rcases h.word (Ne.symm hws.1) with ⟨j, m1, hj, hprompt, hconsole, hdict, h1⟩ | ⟨hnot, -⟩
          · have hij : j = i := by
              cases hi <;> cases hj <;> simp_all
            subst hij
            have hrest1 : List.Forall₂ (Translates m1.engine.dict) ws body := by
              rw [hdict]
              exact hrest.imp fun w i => (translates_emit _ _ _ w i).mpr
            obtain ⟨m', hprompt', hconsole', hget'⟩ := ih h1 hws.2 hrest1
            refine ⟨m', hprompt.trans hprompt', hconsole'.trans hconsole, ?_⟩
            rw [hget']
            simp [Function.emit, Instr.assemble_cons]
          · exact absurd hi (hnot i)

/-- **Otherwise it is left open**, and so its last instruction is no return. -/
lemma Typing.unfinished (h : Typing id g (ws ++ [utf8 ";"]) m) (hws : utf8 ";" ∉ ws)
    (hnot : ∀ body, ¬ List.Forall₂ (Translates m.engine.dict) ws body) :
    ∃ body, (Result.machine (prompt m)).engine.dict.get? id
      = some (g.emit (Instr.assemble body)) := by
  induction ws generalizing m g with
  | nil => exact absurd .nil (hnot [])
  | cons w ws ih =>
      rw [List.mem_cons, not_or] at hws
      rcases h.word (Ne.symm hws.1) with ⟨i, m1, hi, hprompt, -, hdict, h1⟩ | ⟨-, hengine⟩
      · have hnot1 : ∀ body, ¬ List.Forall₂ (Translates m1.engine.dict) ws body := by
          intro body hbody
          rw [hdict] at hbody
          exact hnot (i :: body)
            (.cons hi (hbody.imp fun w i => (translates_emit _ _ _ w i).mp))
        obtain ⟨body, hget⟩ := ih h1 hws.2 hnot1
        refine ⟨i :: body, ?_⟩
        rw [hprompt, hget]
        simp [Function.emit, Instr.assemble_cons]
      · exact ⟨[], by simp [hengine, h.get, Function.emit]⟩

/-- The function `id` of the machine has the name and the code of `f`. -/
def Recreates (id : FuncId) (f : Function) (m : Machine) : Prop :=
  ∃ g, m.engine.dict.get? id = some g ∧ g.name = f.name ∧ g.code = f.code

/-- Whatever the words come to, the code is that of a finished word only if they come to its
body. -/
lemma Typing.translates (h : Typing id { name := f.name } (ws ++ [utf8 ";"]) m)
    (hws : utf8 ";" ∉ ws) (hcode : f.code = Instr.assemble body ++ [Opcode.ret.code])
    (hsame : Recreates id f (Result.machine (prompt m))) :
    List.Forall₂ (Translates m.engine.dict) ws body := by
  obtain ⟨g, hg, -, hgcode⟩ := hsame
  by_cases hex : ∃ body', List.Forall₂ (Translates m.engine.dict) ws body'
  · obtain ⟨body', hbody'⟩ := hex
    obtain ⟨m', hprompt, -, hget'⟩ := h.finished hws hbody'
    rw [hprompt, Result.machine, hget'] at hg
    cases hg
    have heq := hgcode.trans hcode
    simp only [Function.emit, List.nil_append, List.append_cancel_right_eq] at heq
    rwa [← Instr.assemble_injective heq]
  · obtain ⟨body', hget'⟩ := h.unfinished hws (not_exists.mp hex)
    rw [hget'] at hg
    cases hg
    -- a body has an even number of bytes
    have hlength := congrArg List.length (hgcode.trans hcode)
    simp [Function.emit] at hlength
    omega

/-! ## Feeding a line -/

/-- The machine stands before its top level loop and runs words, and it has the functions of `d`
with ids below `id`, and no others. -/
structure StandsBelow (d : Dictionary) (id : FuncId) (m : Machine) : Prop where
  functions : m.engine.dict.functions = d.functions.take id.toNat
  fn : m.engine.fn = bootId
  pc : m.engine.pc = -1
  frames : m.engine.frames = []
  running : m.engine.running = true
  mode : m.engine.mode = .execute
  defining : m.engine.defining = none

/-- The line that the machine reads next is `line`, and its console is `c` then. -/
def LineAhead (line : Text) (m : Machine) (c : Console) : Prop :=
  m.input.buffer = none ∧ ∃ (src : Source) (stream : Stream) (rest : List Text),
    m.input.readLine (Console.hooks m.engine.mode) m.console = (none, src.take stream line rest, c)

variable {e : Engine} {b : Machine} {c : Console} {line name : Text}

/-- Asking for a word reads the line. -/
lemma LineAhead.exists_nextWord {p : Machine} (h : LineAhead line b c) (hp : Becomes b e p)
    (hmode : e.mode = b.engine.mode) : ∃ src : Source, src.buffer = some line.words ∧
      nextWord p = nextWord { p with input := src, console := c } := by
  obtain ⟨hbuffer, src, stream, rest, hreadLine⟩ := h
  refine ⟨src.take stream line rest, rfl, ?_⟩
  rw [nextWord_eq, nextWord_eq, Source.nextWord, Source.nextWord, Source.isEmpty, Source.isEmpty,
    hp.input, hp.console, hbuffer, hp.engine, hmode, hreadLine]
  rfl

/-- The functions that are older than a finished word are a sound dictionary by themselves. -/
lemma StandsBelow.isSound (hb : StandsBelow e.dict id b) (h : Sound e) (hid : firstUserId ≤ id)
    (hget : e.dict.get? id = some f) (hbuffer : b.input.buffer = none) : b.IsSound := by
  obtain ⟨hlow, hhigh⟩ := Dictionary.bounds_of_get? hget
  refine ⟨⟨?_, ?_, ?_, by simp [hb.mode, hb.defining], by simp [hb.defining], ?_, ?_⟩,
    Source.tidy_of_buffer_none hbuffer⟩
  · rw [hb.functions, List.prefix_take_iff]
    refine ⟨h.builtins, ?_⟩
    have : firstUserId.toNat ≤ id.toNat := Int.toNat_le_toNat hid
    exact this
  · intro i g hi hg
    rw [Dictionary.get?_take hb.functions hlow] at hg
    split_ifs at hg with hlt
    have hword := h.words i g hi hg
    -- an open definition would be the newest function, and `id` is newer than `i`
    have hsettled : e.defining ≠ some i := by
      intro hopen
      have hnewest := (h.newest i hopen).2
      rw [← hnewest] at hhigh
      exact absurd (Int.lt_add_one_iff.mp hhigh) (Int.not_le.mpr hlt)
    rw [hb.defining]
    exact ⟨hword.name, hword.native, hword.immediate, fun _ => hword.settled hsettled, by simp,
      by simp⟩
  · rw [hb.functions, List.map_take]
    exact h.names.sublist (List.take_sublist _ _)
  · rw [hb.fn, hb.pc, hb.frames]
    exact .top (Or.inl rfl)
  · intro hlimit
    rw [hb.frames]
    exact Int.le_of_lt hlimit

lemma lookup?_colon (h : Sound m.engine) : ∃ id g, lookup? m.engine.dict (utf8 ":") = some (id, g) ∧
    g.immediate = false ∧ g.code = [] ∧ g.native = some (.primitive .define) := by
  obtain ⟨g, hg, hname, hrest⟩ : ∃ g, Dictionary.initial.get? 12 = some g ∧ g.name = utf8 ":" ∧
      g.immediate = false ∧ g.code = [] ∧ g.native = some (.primitive .define) :=
    ⟨_, rfl, rfl, rfl, rfl, rfl⟩
  rw [← h.get?_builtin (by decide)] at hg
  exact ⟨12, g, by rw [← hname, lookup?_name h hg], hrest⟩

lemma dispatch_colon (hm : m.IsSound) (hmode : m.engine.mode = .execute) :
    dispatch (utf8 ":") m = (define >>= fun _ => pure true) m := by
  obtain ⟨id, f, hlookup, himmediate, hcode, hnative⟩ := lookup?_colon hm.engine
  have hcall := call_primitive (get?_of_lookup? hlookup).1 hcode hnative
  rw [dispatch_of_call hlookup himmediate hmode, bind_apply, bind_apply, hcall,
    Function.isNative, hcode]
  rfl

/-- At `:`, a definition is opened under the name that is read next, if it is new. -/
lemma dispatch_colon_of_name {m1 : Machine} (hm : m.IsSound) (hmode : m.engine.mode = .execute)
    (hname : nextName { m with engine := { m.engine with mode := .compile } } = .ok name m1)
    (hnew : m.engine.dict.find? name = none) :
    ∃ m', dispatch (utf8 ":") m = .ok true m' ∧ Becomes m1 { m.engine with
      mode := .compile
      defining := some m.engine.dict.nextId
      dict := m.engine.dict.add name } m' := by
  have hengine := ((talks_nextName _).of_ok hname).1
  have hdefine := define_new hname (by rw [hengine]; exact hnew)
  refine ⟨_, (dispatch_colon hm hmode).trans (bind_of_ok hdefine), ?_, input_noted ..,
    console_noted ..⟩
  rw [engine_noted, hengine]

/-- The first two words of the line open a definition. -/
lemma StandsBelow.exists_typing (hb : StandsBelow d id b) (hsound : b.IsSound)
    (hline : LineAhead line b c) (hwords : line.words = utf8 ":" :: name :: ws)
    (hnew : b.engine.dict.find? name = none) :
    ∃ m, step b = prompt m ∧ m.console = c ∧ m.engine.dict = b.engine.dict.add name ∧
      Typing b.engine.dict.nextId { name } ws m := by
  obtain ⟨p, hp, hstep⟩ := step_prompt ⟨hsound.engine.get?_boot, hb.fn, hb.pc⟩
  have hpsound := hp.isSound hsound (hsound.engine.top hb.fn hb.frames (Or.inr rfl))
  have hat : p.engine.control = onPrompt := by
    rw [hp.engine, Engine.control, hb.fn, hb.frames]
    rfl
  have hrunning : p.engine.running = true := by
    rw [hp.engine]
    exact hb.running
  -- the line is read
  obtain ⟨src, hbuffer, hnext⟩ := hline.exists_nextWord hp rfl
  set p1 : Machine := { p with input := src, console := c } with hp1
  have hbuffer1 : p1.input.buffer = some (utf8 ":" :: name :: ws) := by
    rw [← hwords]
    exact hbuffer
  -- `:` is read from it, and run
  obtain ⟨p2, hnext2, hengine2, hconsole2, hinput2⟩ := nextWord_of_word hbuffer1
  have hcolon : nextWord p = .ok (some (utf8 ":")) p2 := hnext.trans hnext2
  have hp2 := talks_nextWord.isSound hpsound hcolon
  have hmode : p2.engine.mode = .execute := by
    rw [hengine2, hp1]
    dsimp only
    rw [hp.engine, hb.mode]
  have hdict : p2.engine.dict = b.engine.dict := by
    rw [hengine2, hp1]
    dsimp only
    rw [hp.engine]
  -- and then the name
  have hbuffer2 : p2.input.buffer = some (name :: ws) := by rw [hinput2]
  obtain ⟨p3, hnext3, -, hconsole3, hinput3⟩ := nextWord_of_word
    (m := { p2 with engine := { p2.engine with mode := .compile } }) hbuffer2
  obtain ⟨p4, hdispatch, hp4⟩ :=
    dispatch_colon_of_name hp2 hmode (nextName_of_word hnext3) (by rw [hdict]; exact hnew)
  rw [hdict] at hp4
  have hread : read p = .ok true p4 := read_of_word hcolon hdispatch
  obtain ⟨hsound4, hat4⟩ := (isSound_read hpsound hat).of_ok hread
  refine ⟨p4, hstep.trans (prompt_again hrunning hread), ?_, by rw [hp4.engine], hsound4,
    hat4 rfl, ?_, by rw [hp4.engine], ?_, ?_⟩
  · rw [hp4.console]
    exact hconsole3.trans hconsole2
  · rw [hp4.engine, hengine2]
    exact hrunning
  · rw [hp4.engine, Dictionary.get?_add, if_pos rfl]
  · rw [hp4.input, hinput3]

/-- `see` prints the listing of the word that is read. -/
lemma see_of_name {a : Engine} (ha : Sound a) (hget : a.dict.get? id = some f)
    (hdict : m.engine.dict = a.dict) (hnext : nextWord m = .ok (some f.name) m') :
    see m = write (a.dict.listed id) m' := by
  have hengine := ((talks_nextWord m).of_ok hnext).1
  rw [see, bind_of_ok hnext]
  simp only [seeName]
  rw [get_bind, hengine, hdict, ha.find?_name hget]
  rfl

/-- **What `see` prints of a finished word can be typed again.**  A machine that has the older
functions and no others makes the same word of it, unless the decimal form of a literal is a name;
and it does not make it otherwise. -/
theorem see_typed_again {settings : List Setting} {a : Machine} (hnew : create settings = .ok m₀)
    (hreach : m₀.Reaches a) (hid : firstUserId ≤ id) (hget : a.engine.dict.get? id = some f)
    (hclosed : f.Closed) :
    (∀ m m', m.engine.dict = a.engine.dict → nextWord m = .ok (some f.name) m' →
      see m = write (a.engine.dict.listed id) m') ∧
    Text.lines (a.engine.dict.listed id) = [a.engine.dict.listed id] ∧
    ∀ b c, StandsBelow a.engine.dict id b → LineAhead (a.engine.dict.listed id) b c →
      ((∃ b', step b = .ok () b' ∧ b'.console = c ∧ Recreates id f b') ↔
        ∀ n, Item.operand .push n ∈ (Code.items f.code).map (·.1) →
          ∀ i g, i ≤ id → a.engine.dict.get? i = some g → g.name ≠ Text.ofInt n.toInt) ∧
      (Recreates id f (Result.machine (step b)) → ∃ b', step b = .ok () b' ∧ b'.console = c) := by
  have ha := (isSound_of_reaches (fresh_create hnew).isSound hreach).engine
  obtain ⟨body, hbelow, hcode⟩ := ha.body_of_closed hid hget hclosed
  have hword := ha.words id f hid hget
  have hline := Dictionary.listed_eq_spaced hget hword.name hword.native hword.immediate hcode
  set texts := body.map fun i => i.item.text a.engine.dict with htexts
  have htext : ∀ v ∈ texts, v.IsWord ∧ v ≠ utf8 ";" := by
    intro v hv
    obtain ⟨i, hi, rfl⟩ := List.mem_map.mp hv
    exact ha.text_item hget hbelow hi
  have hsemicolon : utf8 ";" ∉ texts := fun hmem => (htext _ hmem).2 rfl
  have hcolon : (utf8 ":").IsWord := ⟨by decide, by decide⟩
  have hall : ∀ v ∈ f.name :: texts ++ [utf8 ";"], v.IsWord := by
    simp only [List.cons_append, List.mem_cons, List.mem_append, List.not_mem_nil, or_false]
    rintro v (rfl | hv | rfl)
    · exact hword.name
    · exact (htext v hv).1
    · exact ⟨by decide, by decide⟩
  refine ⟨?_, by rw [hline]; exact Text.lines_spaced hcolon hall, ?_⟩
  · intro m m' hdict hnext
    exact see_of_name ha hget hdict hnext
  · intro b c hb hnextLine
    have hwords :
        (a.engine.dict.listed id).words = utf8 ":" :: f.name :: (texts ++ [utf8 ";"]) := by
      rw [hline]
      exact Text.words_spaced hcolon hall
    obtain ⟨m, hstep, hconsole, hdict, htyping⟩ :=
      hb.exists_typing (hb.isSound ha hid hget hnextLine.1) hnextLine hwords
        (Dictionary.find?_take hb.functions ha.names hget)
    rw [Dictionary.nextId_take hb.functions hget] at htyping
    have hrebuilds := Dictionary.rebuilds_add hb.functions hget hword.immediate
    rw [← hdict] at hrebuilds
    have hbody := translates_body_iff ha htyping.sound.engine hrebuilds hget hbelow
    simp only [hcode, Instr.push_mem_items, ← hbody]
    have hgo : List.Forall₂ (Translates m.engine.dict) texts body →
        ∃ b', step b = .ok () b' ∧ b'.console = c ∧ Recreates id f b' := by
      intro h
      obtain ⟨b', hprompt, hconsole', hget'⟩ := htyping.finished hsemicolon h
      exact ⟨b', hstep.trans hprompt, hconsole'.trans hconsole, _, hget', rfl, by rw [hcode]; rfl⟩
    refine ⟨⟨?_, hgo⟩, ?_⟩
    · rintro ⟨b', hstep', -, hsame⟩
      refine htyping.translates hsemicolon hcode ?_
      rw [← hstep, hstep']
      exact hsame
    · intro hsame
      rw [hstep] at hsame
      obtain ⟨b', hstep', hconsole', -⟩ := hgo (htyping.translates hsemicolon hcode hsame)
      exact ⟨b', hstep', hconsole'⟩

/-- A definition with a literal is typed again as it is listed. -/
theorem see_typed_again_of_literal :
    ∃ m₀ a f b c, create [.written [] (.ok (utf8 ": inc +1 + ;\n"))] = .ok m₀ ∧ m₀.Reaches a ∧
      a.engine.dict.get? 16 = some f ∧ f.name = utf8 "inc" ∧ f.code = [3, 1, 0, 2, 5] ∧
      create [.written [] (.ok (utf8 ": inc 1 + ;\n"))] = .ok b ∧
      StandsBelow a.engine.dict 16 b ∧ LineAhead (a.engine.dict.listed 16) b c ∧
      ∃ b', step b = .ok () b' ∧ b'.console = c ∧ Recreates 16 f b' := by
  obtain ⟨m₀, hnew⟩ : ∃ m₀, create [.written [] (.ok (utf8 ": inc +1 + ;\n"))] = .ok m₀ := ⟨_, rfl⟩
  obtain ⟨b, hb⟩ : ∃ b, create [.written [] (.ok (utf8 ": inc 1 + ;\n"))] = .ok b := ⟨_, rfl⟩
  have hdigit : Text.ofInt 1 = utf8 "1" := by
    change Text.ofNat 1 = _
    rw [Text.ofNat]
    rfl
  obtain ⟨p, hp, hstep, p1, hcolon, p2, hopen, p3, hone, p4, hplus, p5, hclose, a, hend, hrunning,
      hstands, f, hf, hf', hadd, hnames⟩ :
      ∃ p, p.engine.running = true ∧ step (m₀.indent true) = prompt p ∧
        ∃ p1, nextWord p = .ok (some (utf8 ":")) p1 ∧ ∃ p2, dispatch (utf8 ":") p1 = .ok true p2 ∧
        ∃ p3, prompt p2 = prompt p3 ∧ ∃ p4, prompt p3 = prompt p4 ∧ ∃ p5, prompt p4 = prompt p5 ∧
        ∃ a, prompt p5 = .ok () a ∧ (m₀.indent true).engine.running = true ∧
        StandsBelow a.engine.dict 16 b ∧ ∃ f, a.engine.dict.get? 16 = some f ∧
        f = { name := utf8 "inc", code := [3, 1, 0, 2, 5] } ∧ a.engine.dict.nameOf 2 = utf8 "+" ∧
        ∀ g ∈ a.engine.dict.functions, g.name ≠ utf8 "1" := by
    cases hnew
    cases hb
    refine ⟨_, rfl, rfl, _, rfl, _, (dispatch_of_call rfl rfl rfl).trans
      (bind_of_ok (define_new (nextName_of_word rfl) rfl)), ?_⟩
    iterate 3 refine ⟨_, prompt_again rfl rfl, ?_⟩
    exact ⟨_, prompt_ended rfl rfl, rfl, ⟨rfl, rfl, rfl, rfl, rfl, rfl, rfl⟩, _, rfl, rfl, rfl,
      by decide⟩
  subst hf'
  obtain ⟨c, hline⟩ : ∃ c, LineAhead (utf8 ": inc 1 + ;\n") b c := by
    cases hb
    exact ⟨_, rfl, _, _, _, rfl⟩
  have hprompt : step (m₀.indent true) = .ok () a := by
    rw [hstep, prompt_again hp ((bind_of_ok hcolon).trans hopen), hone, hplus, hclose, hend]
  have hreach : m₀.Reaches a :=
    ⟨1, .background, _, exec_tick hrunning (tick_of_ok hprompt) 0⟩
  have hlisted : a.engine.dict.listed 16 = utf8 ": inc 1 + ;\n" := by
    have hcode : [3, 1, 0, 2, 5] = Instr.assemble [.push 1, .call 2] ++ [Opcode.ret.code] := rfl
    rw [Dictionary.listed_eq_spaced hf ⟨by decide, by decide⟩ rfl rfl hcode]
    change Text.spaced (utf8 ":") [utf8 "inc", Text.ofInt 1, (a.engine.dict.nameOf 2).asName,
      utf8 ";"] = _
    rw [hdigit, hadd]
    rfl
  rw [← hlisted] at hline
  obtain ⟨-, -, hagain⟩ := see_typed_again hnew hreach (by decide) hf rfl
  refine ⟨m₀, a, _, b, c, hnew, hreach, hf, rfl, rfl, hb, hstands, hline, ?_⟩
  refine (hagain b c hstands hline).1.mpr ?_
  intro n hn i g _ hg
  have hone : Item.operand .push n ∈ [.operand .push 1, .operand .call 2, .finish] := hn
  simp only [List.mem_cons, Item.operand.injEq, true_and, reduceCtorEq, false_and, List.not_mem_nil,
    or_false] at hone
  rw [hone, show (1 : Code).toInt = 1 from rfl, hdigit]
  obtain ⟨k, rfl⟩ := Int.eq_ofNat_of_zero_le (Dictionary.bounds_of_get? hg).1
  exact hnames g (List.mem_of_getElem? hg)

end Machine

end ColonMachine
