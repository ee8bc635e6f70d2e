import ColonMachine.Proofs.Layout

/-!
# What holds of every machine

The state of an engine hangs together in a way that no program can break.  `Sound` says how:

* the functions a machine is born with are in their place, and every later one is a word that was
  typed: it has no native, is not immediate, and no two functions have the same name;
* a later function is finished, or empty, or it is the open definition, which is the newest function
  of all; nothing but the open definition has code without a return, and it has code only while the
  top level loop is running;
* compiled code calls only functions that are not newer than itself, and neither the top level loop
  nor `;`;
* the return stack is the chain of calls from the top level loop to the function being executed, and
  every counter in it stands between two instructions.

The last two are what keeps the counter inside the code.  They are also why an abandoned definition
does no harm: `:` can be run a second time before the first definition is closed only by compiled
code, and then the first one has no code yet.
-/

namespace ColonMachine

/-! ## The parts of the invariant -/

def endDefineId : FuncId := 13

/-- A body of the function `id` calls functions up to `id`, but not the top level loop, nor `;`. -/
def Instr.Below (id : FuncId) (body : List Instr) : Prop :=
  ∀ callee, Instr.call callee ∈ body →
    Code.callee callee ≤ id ∧ Code.callee callee ≠ bootId ∧ Code.callee callee ≠ endDefineId

/-- The code of the function `id`, if it is not the open definition. -/
def Settled (id : FuncId) (code : List Code) : Prop :=
  code = [] ∨ ∃ body, Instr.Below id body ∧ code = Instr.assemble body ++ [Opcode.ret.code]

/-- The code of the function `id`, if it is the open definition. -/
def Pending (id : FuncId) (code : List Code) : Prop :=
  ∃ body, Instr.Below id body ∧ code = Instr.assemble body

/-- What is known of a function that was not there from the start. -/
structure UserWord (defining : Option FuncId) (fn id : FuncId) (f : Function) : Prop where
  name : f.name.IsWord
  native : f.native = none
  immediate : f.immediate = false
  settled : defining ≠ some id → Settled id f.code
  /-- If it is open, it has no return yet. -/
  pending : defining = some id → Pending id f.code
  /-- If it is open and some word is running, it is empty. -/
  untouched : defining = some id → fn ≠ bootId → f.code = []

/-- The calls in progress: `id` is being executed at `pc`, and `frames` lead back to the top level
loop. -/
inductive Active (d : Dictionary) : FuncId → ℤ → List Frame → Prop where
  /-- The top level loop, before its first instruction or in it. -/
  | top {pc : ℤ} (hpc : pc = -1 ∨ pc = 0) : Active d bootId pc []
  | called {id : FuncId} {pc : ℤ} {past rest : List Instr} (hspot : Spot d id pc past rest) :
      Active d id pc [⟨bootId, 0⟩]
  | nested {id caller : FuncId} {pc back : ℤ} {past rest before after : List Instr} {callee : Code}
      {frames : List Frame} (hspot : Spot d id pc past rest)
      (hcaller : Spot d caller back (before ++ [.call callee]) after)
      (hcallee : Code.callee callee = id) (hframes : Active d caller back frames) :
      Active d id pc (⟨caller, back⟩ :: frames)

/-- **The invariant of the engine.** -/
structure Sound (e : Engine) : Prop where
  builtins : Dictionary.initial.functions <+: e.dict.functions
  words : ∀ id f, firstUserId ≤ id → e.dict.get? id = some f →
    UserWord e.defining e.fn id f
  names : (e.dict.functions.map (·.name)).Nodup
  /-- Words are compiled exactly while a definition is open. -/
  mode : e.mode = .compile ↔ e.defining.isSome
  /-- The open definition is the newest function. -/
  newest : ∀ id, e.defining = some id → firstUserId ≤ id ∧ id + 1 = e.dict.size
  /-- The return stack is the chain of calls. -/
  active : Active e.dict e.fn e.pc e.frames
  depth : 0 < e.limit → e.frames.length ≤ e.limit

/-- **The invariant of the machine**, with that of its source. -/
structure Machine.IsSound (m : Machine) : Prop where
  engine : Sound m.engine
  input : m.input.Tidy

/-! ## The functions from the start -/

namespace Sound

variable {e e' : Engine} {id : FuncId} {f : Function}

lemma get?_builtin (h : Sound e) (hid : id < firstUserId) :
    e.dict.get? id = Dictionary.initial.get? id := by
  cases id with
  | negSucc i => rfl
  | ofNat i =>
      have hi : i < Dictionary.initial.functions.length := Int.ofNat_lt.mp hid
      obtain ⟨later, hlater⟩ := h.builtins
      change e.dict.functions[i]? = Dictionary.initial.functions[i]?
      rw [← hlater, List.getElem?_append_left hi]

lemma size_le (h : Sound e) : firstUserId ≤ e.dict.size := by
  have := h.builtins.length_le
  exact Int.ofNat_le.mpr this

lemma get?_boot (h : Sound e) : e.dict.get? bootId = some Machine.bootFunction :=
  h.get?_builtin (by decide)

/-- The functions from the start, other than the top level loop, have no code but a primitive, and
`;`, which closes definitions, is the only one that is immediate. -/
lemma builtin_cases (h : Sound e) (hid : id < firstUserId) (hboot : id ≠ bootId)
    (hget : e.dict.get? id = some f) :
    f.code = [] ∧ (f.immediate = true ↔ id = endDefineId) ∧
      ∃ p, f.native = some (.primitive p) ∧ (p = .endDefine ↔ id = endDefineId) := by
  rw [h.get?_builtin hid] at hget
  obtain ⟨hlow, -⟩ := Dictionary.bounds_of_get? hget
  obtain ⟨i, rfl⟩ := Int.eq_ofNat_of_zero_le hlow
  have hall : Dictionary.initial.functions.zipIdx.all (fun entry =>
      entry.2 == 11 || (entry.1.code.isEmpty && entry.1.immediate == (entry.2 == 13) &&
        (match entry.1.native with
          | some (.primitive p) => (p == .endDefine) == (entry.2 == 13)
          | _ => false))) = true := by
    decide
  have hmem : (f, i) ∈ Dictionary.initial.functions.zipIdx := List.mem_zipIdx_iff_getElem?.mpr hget
  have hi : i ≠ 11 := fun hi => hboot (by rw [hi]; rfl)
  have hend : i = 13 ↔ (i : FuncId) = endDefineId := Int.ofNat_inj.symm
  have hcheck := List.all_eq_true.mp hall _ hmem
  simp only [Bool.or_eq_true, Bool.and_eq_true, beq_iff_eq, hi, false_or,
    List.isEmpty_iff] at hcheck
  obtain ⟨⟨hcode, himmediate⟩, hnative⟩ := hcheck
  refine ⟨hcode, ?_, ?_⟩
  · rw [himmediate, beq_iff_eq]
    exact hend
  · split at hnative
    · next p hp =>
      refine ⟨p, hp, ?_⟩
      rw [← hend, ← beq_iff_eq, beq_iff_eq.mp hnative, beq_iff_eq]
    · cases hnative

lemma find?_name (h : Sound e) (hget : e.dict.get? id = some f) : e.dict.find? f.name = some id :=
  Dictionary.find?_name h.names hget

/-- The names from the start are not those of words. -/
lemma find?_ne_word (h : Sound e) {name : Text} (hname : (Dictionary.initial.find? name).isSome)
    (hid : firstUserId ≤ id) : e.dict.find? name ≠ some id := by
  obtain ⟨i, hi⟩ := Option.isSome_iff_exists.mp hname
  obtain ⟨g, hget, rfl⟩ := Dictionary.get?_of_find? hi
  have hlt : i < firstUserId := (Dictionary.bounds_of_get? hget).2
  rw [← h.get?_builtin hlt] at hget
  rw [h.find?_name hget]
  rintro ⟨⟩
  exact absurd hid (Int.not_le.mpr hlt)

/-- The primitives that read a word have their names. -/
lemma find?_reader (h : Sound e) {p : Primitive} (hget : e.dict.get? id = some f)
    (hnative : f.native = some (.primitive p)) :
    (p = .define → e.dict.find? (utf8 ":") = some id) ∧
      (p = .see → e.dict.find? (utf8 "see") = some id) := by
  have hid : id < firstUserId := by
    refine Int.not_le.mp fun hid => ?_
    rw [(h.words id f hid hget).native] at hnative
    cases hnative
  have hmem : f ∈ Dictionary.initial.functions := by
    obtain ⟨i, rfl⟩ := Int.eq_ofNat_of_zero_le (Dictionary.bounds_of_get? hget).1
    rw [h.get?_builtin hid] at hget
    exact List.mem_of_getElem? hget
  have hnames : ∀ g ∈ Dictionary.initial.functions,
      (g.native = some (.primitive .define) → g.name = utf8 ":") ∧
        (g.native = some (.primitive .see) → g.name = utf8 "see") := by
    decide
  obtain ⟨hdefine, hsee⟩ := hnames f hmem
  constructor
  · rintro rfl
    rw [← hdefine hnative]
    exact h.find?_name hget
  · rintro rfl
    rw [← hsee hnative]
    exact h.find?_name hget

end Sound

/-! ## What can be called -/

/-- The open definition, if there is one, has no code yet. -/
def Engine.Untouched (e : Engine) : Prop :=
  ∀ id f, e.defining = some id → e.dict.get? id = some f → f.code = []

/-- What a function that is called can be, if it is neither the top level loop nor half compiled. -/
inductive Callable (d : Dictionary) (id : FuncId) (f : Function) : Prop where
  | primitive (p : Primitive) (hcode : f.code = []) (hnative : f.native = some (.primitive p))
      (hend : p = .endDefine → id = endDefineId)
  | empty (hcode : f.code = []) (hnative : f.native = none)
  | word (body : List Instr) (hbelow : Instr.Below id body) (hbody : d.Finished id body)

namespace Sound

variable {e : Engine} {id : FuncId} {f : Function}

lemma untouched_of_execute (h : Sound e) (hmode : e.mode = .execute) : e.Untouched := by
  intro id f hdefining _
  have := h.mode.mpr (by rw [hdefining]; rfl)
  rw [hmode] at this
  cases this

lemma execute_of_defining (h : Sound e) (hdefining : e.defining = none) : e.mode = .execute := by
  cases hmode : e.mode with
  | execute => rfl
  | compile =>
      have hopen := h.mode.mp hmode
      rw [hdefining] at hopen
      cases hopen

lemma untouched_of_word (h : Sound e) (hfn : e.fn ≠ bootId) : e.Untouched := by
  intro id f hdefining hget
  exact (h.words id f (h.newest id hdefining).1 hget).untouched hdefining hfn

lemma callable (h : Sound e) (hopen : e.Untouched) (hboot : id ≠ bootId)
    (hget : e.dict.get? id = some f) : Callable e.dict id f := by
  by_cases hid : id < firstUserId
  · obtain ⟨hcode, -, p, hp, hend⟩ := h.builtin_cases hid hboot hget
    exact .primitive p hcode hp hend.mp
  · have hid : firstUserId ≤ id := Int.not_lt.mp hid
    have hword := h.words id f hid hget
    by_cases hdefining : e.defining = some id
    · exact .empty (hopen id f hdefining hget) hword.native
    · rcases hword.settled hdefining with hcode | ⟨body, hbelow, hcode⟩
      · exact .empty hcode hword.native
      · exact .word body hbelow ⟨hid, f, hget, hcode⟩

/-- The body of a finished word calls nothing that is newer. -/
lemma below (h : Sound e) {body : List Instr} (hbody : e.dict.Finished id body) :
    Instr.Below id body := by
  obtain ⟨hid, f, hget, hcode⟩ := hbody
  have hword := h.words id f hid hget
  by_cases hdefining : e.defining = some id
  · obtain ⟨open', -, hopen⟩ := hword.pending hdefining
    exact absurd (congrArg List.length (hcode.symm.trans hopen)) (by simp; omega)
  · rcases hword.settled hdefining with hempty | ⟨body', hbelow, hbody'⟩
    · simp [hcode] at hempty
    · have := Instr.assemble_injective (List.append_cancel_right (hcode.symm.trans hbody'))
      rwa [this]

lemma not_finished (h : Sound e) {body : List Instr} (hdefining : e.defining = some id) :
    ¬ e.dict.Finished id body := by
  rintro ⟨hid, f, hget, hcode⟩
  obtain ⟨body', -, hbody'⟩ := (h.words id f hid hget).pending hdefining
  exact absurd (congrArg List.length (hcode.symm.trans hbody')) (by simp; omega)

lemma callee (h : Sound e) {pc : ℤ} {past rest : List Instr} {callee : Code}
    (hspot : Spot e.dict id pc past (.call callee :: rest)) (hopen : e.Untouched) :
    ∃ f, e.dict.get? (Code.callee callee) = some f ∧
      Callable e.dict (Code.callee callee) f ∧ Code.callee callee ≠ endDefineId := by
  obtain ⟨hle, hboot, hend⟩ := h.below hspot.finished callee (by simp)
  obtain ⟨-, f, hget, -⟩ := hspot.finished
  have hlt := (Dictionary.bounds_of_get? hget).2
  obtain ⟨g, hg⟩ := Dictionary.exists_get? (d := e.dict) (Int.natCast_nonneg _)
    (show Code.callee callee < _ from Int.lt_of_le_of_lt hle hlt)
  exact ⟨g, hg, h.callable hopen hboot hg, hend⟩

end Sound

/-! ## What keeps the invariant -/

namespace Active

variable {d d' : Dictionary} {id : FuncId} {pc : ℤ} {frames : List Frame}

lemma mono (h : Active d id pc frames) (hd : ∀ id body, d.Finished id body → d'.Finished id body) :
    Active d' id pc frames := by
  induction h with
  | top hpc => exact .top hpc
  | called hspot => exact .called (hspot.mono (hd _))
  | nested hspot hcaller hcallee _ ih =>
      exact .nested (hspot.mono (hd _)) (hcaller.mono (hd _)) hcallee ih

/-- Either the top level loop is running, or a word that was called from somewhere. -/
lemma inv (h : Active d id pc frames) :
    (id = bootId ∧ frames = [] ∧ (pc = -1 ∨ pc = 0)) ∨
      ∃ past rest frame frames', Spot d id pc past rest ∧ frames = frame :: frames' ∧
        Active d frame.fn frame.pc frames' := by
  cases h with
  | top hpc => exact Or.inl ⟨rfl, rfl, hpc⟩
  | called hspot => exact Or.inr ⟨_, _, _, _, hspot, rfl, .top (Or.inr rfl)⟩
  | nested hspot _ _ hframes => exact Or.inr ⟨_, _, _, _, hspot, rfl, hframes⟩

lemma frames_ne_nil (h : Active d id pc frames) {past rest : List Instr}
    (hspot : Spot d id pc past rest) : frames ≠ [] := by
  cases h with
  | top => exact absurd rfl hspot.finished.ne_boot
  | called => exact List.cons_ne_nil _ _
  | nested => exact List.cons_ne_nil _ _

lemma move (h : Active d id pc frames) {pc' : ℤ} {past rest : List Instr}
    (hspot : Spot d id pc' past rest) : Active d id pc' frames := by
  cases h with
  | top => exact absurd rfl hspot.finished.ne_boot
  | called => exact .called hspot
  | nested _ hcaller hcallee hframes => exact .nested hspot hcaller hcallee hframes

/-- Entering the word that the last instruction calls. -/
lemma enter (h : Active d id pc frames) {before after body : List Instr} {callee : Code}
    (hcaller : Spot d id pc (before ++ [.call callee]) after)
    (hbody : d.Finished (Code.callee callee) body) :
    Active d (Code.callee callee) (-1) (⟨id, pc⟩ :: frames) :=
  .nested (Spot.start hbody) hcaller rfl h

end Active

namespace Sound

variable {e : Engine} {id fn : FuncId} {f : Function} {pc : ℤ} {frames : List Frame}

lemma moved (h : Sound e) (hopen : fn = bootId ∨ e.Untouched)
    (hactive : Active e.dict fn pc frames) (hdepth : 0 < e.limit → frames.length ≤ e.limit) :
    Sound { e with fn := fn, pc := pc, frames := frames } where
  builtins := h.builtins
  words := by
    intro id f hid hget
    have hword := h.words id f hid hget
    refine ⟨hword.name, hword.native, hword.immediate, hword.settled, hword.pending, ?_⟩
    intro hdefining hfn
    rcases hopen with hboot | hopen
    · exact absurd hboot hfn
    · exact hopen id f hdefining hget
  names := h.names
  mode := h.mode
  newest := h.newest
  active := hactive
  depth := hdepth

lemma top (h : Sound e) (hfn : e.fn = bootId) (hframes : e.frames = []) (hpc : pc = -1 ∨ pc = 0) :
    Sound { e with pc := pc } := by
  refine h.moved (Or.inl hfn) ?_ h.depth
  rw [hfn, hframes]
  exact .top hpc

lemma stack (h : Sound e) (s : Stack) : Sound { e with stack := s } :=
  ⟨h.builtins, h.words, h.names, h.mode, h.newest, h.active, h.depth⟩

lemma stopped (h : Sound e) : Sound { e with running := false } :=
  ⟨h.builtins, h.words, h.names, h.mode, h.newest, h.active, h.depth⟩

lemma opened (h : Sound e) (hopen : e.Untouched) {name : Text} (hname : name.IsWord)
    (hnew : e.dict.find? name = none) :
    Sound { e with
      mode := .compile, defining := some e.dict.nextId, dict := e.dict.add name } where
  builtins := h.builtins.trans (List.prefix_append _ _)
  words := by
    intro id f hid hget
    rw [Dictionary.get?_add] at hget
    split_ifs at hget with hlast
    · cases hget
      refine ⟨hname, rfl, rfl, fun hne => absurd (by rw [hlast]) hne, fun _ => ?_, fun _ _ => rfl⟩
      exact ⟨[], by simp [Instr.Below], rfl⟩
    · have hword := h.words id f hid hget
      have hother : some e.dict.nextId ≠ some id := fun heq => hlast (Option.some.inj heq).symm
      refine ⟨hword.name, hword.native, hword.immediate, fun _ => ?_,
        fun heq => absurd heq hother, fun heq => absurd heq hother⟩
      -- a definition that was open before is left empty
      by_cases hdefining : e.defining = some id
      · exact Or.inl (hopen id f hdefining hget)
      · exact hword.settled hdefining
  names := Dictionary.nodup_add h.names hnew
  mode := by simp
  newest := by
    rintro id ⟨⟩
    refine ⟨h.size_le, ?_⟩
    rw [Dictionary.size_add]
    rfl
  active := h.active.mono fun _ _ hbody => hbody.add name
  depth := h.depth

lemma refused (h : Sound e) (hopen : e.Untouched) :
    Sound { e with mode := .execute, defining := none } where
  builtins := h.builtins
  words := by
    intro id f hid hget
    have hword := h.words id f hid hget
    refine ⟨hword.name, hword.native, hword.immediate, fun _ => ?_, by simp, by simp⟩
    by_cases hdefining : e.defining = some id
    · exact Or.inl (hopen id f hdefining hget)
    · exact hword.settled hdefining
  names := h.names
  mode := by simp
  newest := by simp
  active := h.active
  depth := h.depth

lemma opened? (h : Sound e) (hdefining : e.defining = some id) :
    ∃ f, e.dict.get? id = some f ∧ e.opened? = some (id, f) := by
  obtain ⟨hid, hlast⟩ := h.newest id hdefining
  obtain ⟨f, hf⟩ := Dictionary.exists_get? (d := e.dict) (Int.le_trans (by decide) hid)
    (Int.lt_of_lt_of_le (Int.lt_succ id) (Int.le_of_eq hlast))
  refine ⟨f, hf, ?_⟩
  simp [Engine.opened?, hdefining, hf]

lemma builtins_emit (h : Sound e) (hdefining : e.defining = some id) (code : List Code) :
    Dictionary.initial.functions <+: (e.dict.emit id code).functions := by
  refine List.prefix_iff_getElem?.mpr fun i hi => ?_
  have hne : (i : FuncId) ≠ id := by
    have hid := (h.newest id hdefining).1
    have hi : (i : FuncId) < firstUserId := Int.ofNat_lt.mpr hi
    rintro rfl
    exact absurd hid (Int.not_le.mpr hi)
  have hget := Dictionary.get?_emit e.dict id code i
  rw [if_neg hne] at hget
  exact hget.trans (List.prefix_iff_getElem?.mp h.builtins i hi)

lemma active_emit (h : Sound e) (hdefining : e.defining = some id) (code : List Code) :
    Active (e.dict.emit id code) e.fn e.pc e.frames := by
  refine h.active.mono fun word body hbody => hbody.emit ?_ code
  rintro rfl
  exact h.not_finished hdefining hbody

lemma closed (h : Sound e) : Sound e.closed := by
  cases hdefining : e.defining with
  | none =>
      have hopened : e.opened? = none := by simp [Engine.opened?, hdefining]
      have hrefused := h.refused (by simp [Engine.Untouched, hdefining])
      rwa [Engine.closed, hopened]
  | some target =>
      obtain ⟨f, hf, hopened⟩ := h.opened? hdefining
      rw [Engine.closed, hopened]
      refine ⟨h.builtins_emit hdefining _, ?_, ?_, by simp, by simp, h.active_emit hdefining _,
        h.depth⟩
      · intro id g hid hget
        rw [Dictionary.get?_emit] at hget
        split_ifs at hget with htarget
        · subst htarget
          rw [hf] at hget
          cases hget
          have hword := h.words id f hid hf
          obtain ⟨body, hbelow, hcode⟩ := hword.pending hdefining
          refine ⟨hword.name, hword.native, hword.immediate, fun _ => Or.inr ⟨body, hbelow, ?_⟩,
            by simp, by simp⟩
          simp [Function.emit, hcode]
        · have hword := h.words id g hid hget
          have hother : e.defining ≠ some id := by
            rw [hdefining]
            exact fun heq => htarget (Option.some.inj heq).symm
          exact ⟨hword.name, hword.native, hword.immediate, fun _ => hword.settled hother, by simp,
            by simp⟩
      · rw [Dictionary.names_emit]
        exact h.names

lemma emitted (h : Sound e) (hfn : e.fn = bootId) {target : FuncId} {i : Instr}
    (hdefining : e.defining = some target) (hi : Instr.Below target [i]) :
    Sound { e with dict := e.dict.emit target i.bytes } where
  builtins := h.builtins_emit hdefining _
  words := by
    intro id g hid hget
    rw [Dictionary.get?_emit] at hget
    split_ifs at hget with htarget
    · -- the open definition has one instruction more, and still no return
      subst htarget
      obtain ⟨f, hf, -⟩ := h.opened? hdefining
      rw [hf] at hget
      cases hget
      have hword := h.words id f hid hf
      obtain ⟨body, hbelow, hcode⟩ := hword.pending hdefining
      refine ⟨hword.name, hword.native, hword.immediate, fun hne => absurd hdefining hne,
        fun _ => ?_, fun _ hne => absurd hfn hne⟩
      refine ⟨body ++ [i], ?_, ?_⟩
      · intro callee hmem
        rcases List.mem_append.mp hmem with hmem | hmem
        · exact hbelow callee hmem
        · exact hi callee hmem
      · simp [Function.emit, hcode, Instr.assemble]
    · have hword := h.words id g hid hget
      exact ⟨hword.name, hword.native, hword.immediate, hword.settled, hword.pending,
        hword.untouched⟩
  names := by
    rw [Dictionary.names_emit]
    exact h.names
  mode := h.mode
  newest := by
    intro id hid
    rw [Dictionary.size_emit]
    exact h.newest id hid
  active := h.active_emit hdefining _
  depth := h.depth

/-- **Every primitive keeps the invariant**, if it does not open a definition while another one has
code already. -/
lemma effect (h : Sound e) {p : Primitive} {e' : Engine} (hopen : e.Untouched ∨ p = .endDefine)
    (heffect : Effect e p e') : Sound e' := by
  cases heffect with
  | stack _ s => exact h.stack s
  | exit => exact h.stopped
  | opened hname hnew =>
      rcases hopen with hopen | hp
      · exact h.opened hopen hname hnew
      · cases hp
  | refused =>
      rcases hopen with hopen | hp
      · exact h.refused hopen
      · cases hp
  | closed => exact h.closed

/-- After a fault, the machine stands before its top level loop. -/
lemma recovered (h : Sound e) :
    Sound { e with
      frames := [], fn := bootId, pc := -1
      mode := if e.defining.isNone then .execute else e.mode } := by
  have hmoved := h.moved (Or.inl rfl) (Active.top (d := e.dict) (Or.inl rfl))
    (fun hlimit => Int.le_of_lt hlimit)
  refine ⟨hmoved.builtins, hmoved.words, hmoved.names, ?_, hmoved.newest, hmoved.active,
    hmoved.depth⟩
  have hmode := h.mode
  cases hdefining : e.defining with
  | none => simp
  | some id => simpa [hdefining] using hmode

end Sound

end ColonMachine
