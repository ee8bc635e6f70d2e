import ColonMachine.Proofs.Faults
import Mathlib.Data.List.Forall2

/-!
# What a definition compiles to

`Compiles f ws m m'` says that from `m` to `m'`, at the top level, the words `: f ws ;` were read
and dispatched, with line breaks anywhere, and that none of them gave rise to a diagnostic.  Then
`f` is a finished word, and its body has one instruction for every word of `ws`
(`Compiles.compiled`): a call of the function that the word stands for, or a literal with the low 8
bits of the number it stands for (`Translates`).

While the definition is open, words are looked up in a dictionary in which `f` stands already, but
is not finished.  That makes no difference to a word other than `f`, because code is added to no
function but `f`, and names are looked up by their spelling alone (`lookup?_emit`).
-/

namespace ColonMachine.Machine

variable {m m' m1 m2 m₀ : Machine} {f w : Text} {ws : List Text} {id target : FuncId} {g : Function}
  {d : Dictionary} {body : List Instr} {i : Instr}

/-! ## Reading at the top level -/

/-- The machine `m` comes up at the top level of a run of `m₀`, before a word is read. -/
inductive TopLevel (m₀ : Machine) : Machine → Prop where
  | enter {m m' : Machine} (hreach : m₀.Reaches m) (hfn : m.engine.fn = bootId)
      (hpc : m.engine.pc = -1) (hm' : Becomes m { m.engine with pc := 0 } m')
      (hstep : step m = prompt m') : TopLevel m₀ m'
  | word {m m' : Machine} (h : TopLevel m₀ m) (hrunning : m.engine.running = true)
      (hread : read m = .ok true m') : TopLevel m₀ m'

lemma TopLevel.isSound (h : TopLevel m₀ m) (hm₀ : m₀.IsSound) :
    m.IsSound ∧ m.engine.control = onPrompt := by
  induction h with
  | @enter m m' hreach hfn hpc hm' _ =>
      have hm := isSound_of_reaches hm₀ hreach
      have hframes : m.engine.frames = [] := by
        rcases hm.engine.active.inv with ⟨-, hframes, -⟩ | ⟨_, _, _, _, hspot, -, -⟩
        · exact hframes
        · exact absurd hfn hspot.finished.ne_boot
      refine ⟨hm'.isSound hm (hm.engine.top hfn hframes (Or.inr rfl)), ?_⟩
      rw [hm'.engine, Engine.control, hfn, hframes]
      rfl
  | word _ _ hread ih =>
      obtain ⟨hm, hat⟩ := ih
      obtain ⟨hm', hat'⟩ := (isSound_read hm hat).of_ok hread
      exact ⟨hm', hat' rfl⟩

/-- The next word at the top level is `w`, after any number of line ends. -/
inductive Reads (w : Text) : Machine → Machine → Prop where
  | word {m m' : Machine} (hrunning : m.engine.running = true)
      (hnext : nextWord m = .ok (some w) m') : Reads w m m'
  | line {m m1 m2 m3 m' : Machine} (hrunning : m.engine.running = true)
      (hnext : nextWord m = .ok none m1) (hjump : step m1 = .ok () m2)
      (hm3 : Becomes m2 { m2.engine with pc := 0 } m3) (hprompt : step m2 = prompt m3)
      (hrest : Reads w m3 m') : Reads w m m'

/-- At the end of a line the top level loop jumps back and begins again, and stands where it
stood. -/
lemma round_of_line {m3 : Machine} (hm : m.IsSound) (hat : m.engine.control = onPrompt)
    (hnext : nextWord m = .ok none m1) (hjump : step m1 = .ok () m2)
    (hm3 : Becomes m2 { m2.engine with pc := 0 } m3) :
    Becomes m1 { m1.engine with pc := -1 } m2 ∧ m3.engine = m.engine ∧ m3.IsSound := by
  have hengine := ((talks_nextWord m).of_ok hnext).1
  have hm1 := talks_nextWord.isSound hm hnext
  have hfn : m1.engine.fn = bootId := by rw [hengine]; exact congrArg Control.fn hat
  have hpc : m1.engine.pc = 0 := by rw [hengine]; exact congrArg Control.pc hat
  obtain ⟨m2', hm2, hstep⟩ := step_jump ⟨hm1.engine.get?_boot, hfn, hpc⟩
  rw [hjump] at hstep
  cases hstep
  have hengine3 : m3.engine = m.engine := by
    rw [hm3.engine, hm2.engine, ← hengine]
    dsimp only
    rw [← hpc]
  refine ⟨hm2, hengine3, by rw [hengine3]; exact hm.engine, ?_⟩
  rw [hm3.input, hm2.input]
  exact hm1.input

/-- Reading does not touch the engine. -/
lemma Reads.engine (h : Reads w m m') (hm : m.IsSound) (hat : m.engine.control = onPrompt) :
    m'.engine = m.engine ∧ m'.IsSound ∧ w.IsWord ∧ m.engine.running = true := by
  induction h with
  | @word m m' hrunning hnext =>
      exact ⟨((talks_nextWord m).of_ok hnext).1, talks_nextWord.isSound hm hnext,
        isWord_of_nextWord hm.input hnext, hrunning⟩
  | @line m m1 m2 m3 m' hrunning hnext hjump hm3 _ _ ih =>
      obtain ⟨-, hengine, hsound⟩ := round_of_line hm hat hnext hjump hm3
      obtain ⟨hengine', hm', hword, -⟩ := ih hsound (by rw [hengine, hat])
      exact ⟨hengine'.trans hengine, hm', hword, hrunning⟩

/-! ## Compiling -/

/-- From `m` to `m'`, a definition was opened under the name `f`, and the words `ws` were compiled
into it without a diagnostic. -/
inductive Compiling (f : Text) (m : Machine) : List Text → Machine → Prop where
  | colon {m1 m' : Machine} {id : FuncId} {g : Function} (hmode : m.engine.mode = .execute)
      (hread : Reads (utf8 ":") m m1) (hdispatch : dispatch (utf8 ":") m1 = .ok true m')
      (hdefining : m'.engine.defining = some id) (hget : m'.engine.dict.get? id = some g)
      (hname : g.name = f) : Compiling f m [] m'
  | word {ws : List Text} {w : Text} {m1 m2 m' : Machine} (hbefore : Compiling f m ws m1)
      (hread : Reads w m1 m2) (hdispatch : dispatch w m2 = .ok true m')
      (hsilent : m'.console = m2.console) (hmode : m'.engine.mode = .compile) :
      Compiling f m (ws ++ [w]) m'

/-- From `m` to `m'`, the definition `: f ws ;` was compiled without a diagnostic. -/
def Compiles (f : Text) (ws : List Text) (m m' : Machine) : Prop :=
  ∃ m1 m2, Compiling f m ws m1 ∧ Reads (utf8 ";") m1 m2 ∧ dispatch (utf8 ";") m2 = .ok true m'

/-- The instruction that a word is compiled to. -/
inductive Translates (d : Dictionary) (w : Text) : Instr → Prop where
  | call {id : FuncId} {g : Function} (hlookup : lookup? d w = some (id, g))
      (himmediate : g.immediate = false) (hid : id ≤ maxCallId) :
      Translates d w (.call (Code.ofCallee id))
  | push {n : Int32} (hlookup : lookup? d w = none) (hread : w.readCell = .ok n) :
      Translates d w (.push n.toInt8)

/-- Code that is added to a function makes no difference to other names. -/
lemma lookup?_emit (hget : d.get? target = some g) (hw : w ≠ g.name) (code : List Code) :
    lookup? (d.emit target code) w = lookup? d w := by
  rw [lookup?, lookup?, Dictionary.find?_emit]
  cases hfind : d.find? w with
  | none => rfl
  | some id =>
      obtain ⟨g', hg', hname⟩ := Dictionary.get?_of_find? hfind
      have hne : id ≠ target := by
        rintro rfl
        rw [hget] at hg'
        cases hg'
        exact hw hname.symm
      simp only [Option.bind_eq_bind, Option.bind_some]
      rw [Dictionary.get?_emit, if_neg hne]

lemma Translates.emit (h : Translates d w i) (hget : d.get? target = some g) (hw : w ≠ g.name)
    (code : List Code) : Translates (d.emit target code) w i := by
  have hlookup' := lookup?_emit hget hw code
  cases h with
  | call hlookup himmediate hid => exact .call (hlookup'.trans hlookup) himmediate hid
  | push hlookup hread => exact .push (hlookup'.trans hlookup) hread

/-- A definition is open under the name `f`, and `ws` has been compiled into it. -/
structure Open (f : Text) (ws : List Text) (m : Machine) : Prop where
  sound : m.IsSound
  control : m.engine.control = onPrompt
  code : ∃ id g body, m.engine.defining = some id ∧ m.engine.dict.get? id = some g ∧ g.name = f ∧
    g.code = Instr.assemble body ∧ List.Forall₂ (Translates m.engine.dict) ws body

/-- A definition that is opened has no code yet. -/
lemma untouched_dispatch (hm : m.IsSound) (hword : w.IsWord) (hmode : m.engine.mode = .execute) :
    Does (dispatch w) m (fun _ m' => m'.engine.Untouched) (fun _ _ => True) := by
  have hnone : m.engine.defining = none := by
    have := hm.engine.mode.not
    rw [hmode] at this
    simpa using this
  have hclosed : ∀ {e : Engine}, e.defining = none → e.Untouched := by
    intro e he id f hid
    rw [he] at hid
    cases hid
  cases dispatching hm.engine hword with
  | @close m1 _ _ _ _ _ _ hm1 hdispatch =>
      obtain ⟨m2, hm2, hend⟩ := endDefine_eq m1
      refine does_of_ok (hdispatch.trans (bind_of_ok hend)) (hclosed ?_)
      rw [hm2.engine]
      rfl
  | @run id f hlookup himmediate _ hcall hdispatch =>
      refine Does.congr ?_ hdispatch
      rw [does_bind]
      refine (call_effect hm.input (get?_of_lookup? hlookup).1 hcall).imp ?_ fun _ _ _ => trivial
      rintro - m' (⟨p, heffect, -, -⟩ | ⟨-, _, -, -, hm'⟩)
      · rw [does_pure]
        generalize m'.engine = e at heffect ⊢
        cases heffect with
        | @opened name hname hnew =>
            rintro id f ⟨⟩ hget
            rw [Dictionary.get?_add, if_pos rfl] at hget
            cases hget
            rfl
        | refused => exact hclosed rfl
        | closed => exact hclosed rfl
        | _ => exact hclosed hnone
      · exact hclosed (by rw [hm'.engine]; exact hnone)
  | compile _ _ hcompile _ _ _ _ _ => rw [hmode] at hcompile; cases hcompile
  | refuse _ _ hcompile _ _ => rw [hmode] at hcompile; cases hcompile
  | literal _ _ hcompile _ _ _ => rw [hmode] at hcompile; cases hcompile
  | number _ _ _ hdispatch => exact does_of_ok hdispatch (hclosed hnone)
  | @unknown m1 why _ _ hm1 hdispatch =>
      refine Does.congr ?_ hdispatch
      rw [does_bind]
      refine (talks_report _ m1).imp ?_ fun _ _ _ => trivial
      rintro - m2 ⟨hengine, -⟩
      rw [does_pure, hengine, hm1.engine]
      exact hclosed hnone

/-! ## Diagnostics are not silent -/

lemma offered_write (t : Text) : Does (write t) m (fun _ m' => m'.console.offered
    = if t.isEmpty then m.console.offered else t :: m.console.offered) (fun _ _ => True) := by
  rw [write, does_bind]
  change Does (haltIf (m.console.write t).1) { m with console := (m.console.write t).2 } _ _
  cases (m.console.write t).1 with
  | none =>
      rw [haltIf, does_pure]
      change (m.console.write t).2.offered = _
      rw [Console.write]
      split <;> rfl
  | some failure =>
      rw [haltIf, Does]
      split
      · next hok => exact absurd hok (broken_halt _ _ _ _)
      · trivial

lemma console_ne_of_report (message : Text) :
    Does (report message) m (fun _ m' => m'.console ≠ m.console) (fun _ _ => True) := by
  rw [report, does_bind, note, does_modify, does_bind, does_get, does_bind]
  refine (offered_write _).imp ?_ fun _ _ _ => trivial
  rintro - m1 h1
  rw [does_bind]
  refine (offered_write _).imp ?_ fun _ _ _ => trivial
  rintro - m2 h2 heq
  have hlength := congrArg (fun c : Console => c.offered.length) heq
  change m2.console.offered.length = m.console.offered.length at hlength
  rw [h2, if_neg (by simp), h1, console_noted] at hlength
  split_ifs at hlength
  · simp at hlength
  · simp only [List.length_cons] at hlength
    omega

/-- A diagnostic leaves nothing of the line. -/
lemma line_of_report (message : Text) : Does (report message) m
    (fun _ m' => m'.input.buffer = some [] ∧ m'.console.reported = true) (fun _ _ => True) := by
  rw [report, does_bind, note, does_modify, does_bind, does_get, does_bind]
  refine (talks_write _ _).imp ?_ fun _ _ _ => trivial
  rintro - m1 -
  rw [does_bind]
  refine (talks_write _ _).imp ?_ fun _ _ _ => trivial
  rintro - m2 -
  rw [does_bind, does_modify, discard, does_modify]
  exact ⟨rfl, rfl⟩

/-! ## The words of a definition -/

/-- A word that was dispatched silently while a definition stays open was compiled into it. -/
lemma translates_of_dispatch (hm : m.IsSound) (hword : w.IsWord)
    (hdefining : m.engine.defining = some target) (hdispatch : dispatch w m = .ok true m')
    (hsilent : m'.console = m.console) (hmode : m'.engine.mode = .compile) :
    ∃ i, Translates m.engine.dict w i ∧
      Becomes m { m.engine with dict := m.engine.dict.emit target i.bytes } m' := by
  have hcompile : m.engine.mode = .compile := hm.engine.mode.mpr (by rw [hdefining]; rfl)
  have hreport : ∀ {message : Text} {m1 : Machine}, Becomes m m.engine m1 →
      dispatch w m ≠ (report message >>= fun _ => pure true) m1 := by
    intro message m1 hm1 heq
    rw [hdispatch] at heq
    cases hr : report message m1 with
    | error i m2 =>
        rw [bind_of_error hr] at heq
        cases heq
    | ok _ m2 =>
        rw [bind_of_ok hr] at heq
        cases heq
        refine (console_ne_of_report message).of_ok hr ?_
        rw [hsilent, hm1.console]
  cases dispatching hm.engine hword with
  | @close m1 _ _ _ _ _ _ hm1 hdispatch' =>
      obtain ⟨m2, hm2, hend⟩ := endDefine_eq m1
      rw [hdispatch'.trans (bind_of_ok hend)] at hdispatch
      cases hdispatch
      rw [hm2.engine] at hmode
      cases hmode
  | run _ _ hexecute _ _ => rw [hcompile] at hexecute; cases hexecute
  | number _ _ hexecute _ => rw [hcompile] at hexecute; cases hexecute
  | refuse _ _ _ _ hdispatch' => exact absurd hdispatch' (hreport (becomes_engine m m.engine))
  | unknown _ _ hm1 hdispatch' => exact absurd hdispatch' (hreport hm1)
  | compile hlookup himmediate _ hdefining' hid _ hm1 hdispatch' =>
      rw [hdefining] at hdefining'
      cases hdefining'
      rw [hdispatch] at hdispatch'
      cases hdispatch'
      exact ⟨_, .call hlookup himmediate hid, hm1⟩
  | literal hlookup hread _ hdefining' hm1 hdispatch' =>
      rw [hdefining] at hdefining'
      cases hdefining'
      rw [hdispatch] at hdispatch'
      cases hdispatch'
      exact ⟨_, .push hlookup hread, hm1⟩

/-- What was compiled before one more instruction still is what it was. -/
lemma forall₂_emit (h : List.Forall₂ (Translates d) ws body) (hget : d.get? target = some g)
    (hself : g.name ∉ ws) (code : List Code) :
    List.Forall₂ (Translates (d.emit target code)) ws body := by
  induction h with
  | nil => exact .nil
  | cons hi _ ih =>
      rw [List.mem_cons, not_or] at hself
      exact .cons (hi.emit hget (Ne.symm hself.1) code) (ih hself.2)

lemma open_of_compiling (h : Compiling f m ws m') (hm : m.IsSound)
    (hat : m.engine.control = onPrompt) (hself : f ∉ ws) : Open f ws m' := by
  induction h with
  | @colon m1 m' id g hmode hread hdispatch hdefining hget hname =>
      obtain ⟨hengine, hm1, hword, -⟩ := hread.engine hm hat
      have hat1 : m1.engine.control = onPrompt := by rw [hengine, hat]
      obtain ⟨hm', hat'⟩ := (isSound_dispatch hm1 hat1 hword).of_ok hdispatch
      have hcode := (untouched_dispatch hm1 hword (by rw [hengine, hmode])).of_ok hdispatch
      exact ⟨hm', hat' rfl, id, g, [], hdefining, hget, hname, hcode id g hdefining hget, .nil⟩
  | @word ws w m1 m2 m' _ hread hdispatch hsilent hmode ih =>
      have hbefore : f ∉ ws := fun hmem => hself (List.mem_append_left _ hmem)
      obtain ⟨hm1, hat1, id, g, body, hdefining, hget, hname, hcode, hbody⟩ := ih hbefore
      obtain ⟨hengine, hm2, hword, -⟩ := hread.engine hm1 hat1
      have hat2 : m2.engine.control = onPrompt := by rw [hengine, hat1]
      obtain ⟨hm', hat'⟩ := (isSound_dispatch hm2 hat2 hword).of_ok hdispatch
      rw [← hengine] at hdefining hget hbody
      obtain ⟨i, hi, hbecomes⟩ :=
        translates_of_dispatch hm2 hword hdefining hdispatch hsilent hmode
      -- so far in the dictionary before the instruction was added
      have hall : List.Forall₂ (Translates m2.engine.dict) (ws ++ [w]) (body ++ [i]) :=
        List.rel_append hbody (.cons hi .nil)
      refine ⟨hm', hat' rfl, id, g.emit i.bytes, body ++ [i], ?_, ?_, hname, ?_, ?_⟩
      · rw [hbecomes.engine]
        exact hdefining
      · rw [hbecomes.engine, Dictionary.get?_emit, if_pos rfl, hget]
        rfl
      · simp [Function.emit, hcode, Instr.assemble]
      · rw [hbecomes.engine]
        exact forall₂_emit hall hget (by rw [hname]; exact hself) _

/-- **What a definition compiles to.**  The machine is at the top level, and `f` is a finished word
with one instruction for every word. -/
structure Compiled (f : Text) (ws : List Text) (m : Machine) : Prop where
  sound : m.IsSound
  control : m.engine.control = onPrompt
  running : m.engine.running = true
  mode : m.engine.mode = .execute
  word : ∃ id g body, lookup? m.engine.dict f = some (id, g) ∧ g.immediate = false ∧
    m.engine.dict.Finished id body ∧ List.Forall₂ (Translates m.engine.dict) ws body

lemma lookup?_semicolon (h : Sound m.engine) :
    ∃ g, lookup? m.engine.dict (utf8 ";") = some (endDefineId, g) ∧ g.immediate = true := by
  obtain ⟨g, hinitial, himmediate, hname⟩ : ∃ g, Dictionary.initial.get? endDefineId = some g ∧
      g.immediate = true ∧ g.name = utf8 ";" := ⟨_, rfl, rfl, rfl⟩
  rw [← h.get?_builtin (by decide)] at hinitial
  exact ⟨g, by rw [← hname, lookup?_name h hinitial], himmediate⟩

lemma dispatch_semicolon (hm : m.IsSound) :
    ∃ m', dispatch (utf8 ";") m = .ok true m' ∧ Becomes m m.engine.closed m' := by
  obtain ⟨g, hsemicolon, htrue⟩ := lookup?_semicolon hm.engine
  have hword : (utf8 ";").IsWord := ⟨by decide, by decide⟩
  have himmediate : ∀ {id' : FuncId} {g' : Function},
      lookup? m.engine.dict (utf8 ";") = some (id', g') → ¬ g'.immediate = false := by
    intro id' g' hlookup hfalse
    rw [hsemicolon] at hlookup
    cases hlookup
    rw [htrue] at hfalse
    cases hfalse
  cases dispatching hm.engine hword with
  | @close m1 _ _ _ _ _ _ hm1 hdispatch =>
      obtain ⟨m2, hm2, hend⟩ := endDefine_eq m1
      rw [hm1.engine] at hm2
      exact ⟨m2, hdispatch.trans (bind_of_ok hend), hm2.engine, hm2.input.trans hm1.input,
        hm2.console.trans hm1.console⟩
  | run hlookup hfalse _ _ _ => exact absurd hfalse (himmediate hlookup)
  | compile hlookup hfalse _ _ _ _ _ _ => exact absurd hfalse (himmediate hlookup)
  | refuse hlookup hfalse _ _ _ => exact absurd hfalse (himmediate hlookup)
  | number hlookup _ _ _ => rw [hsemicolon] at hlookup; cases hlookup
  | literal hlookup _ _ _ _ _ => rw [hsemicolon] at hlookup; cases hlookup
  | unknown hlookup _ _ _ => rw [hsemicolon] at hlookup; cases hlookup

/-- What `;` does while a definition is open. -/
lemma closed_of_dispatch (hm : m.IsSound) (hdefining : m.engine.defining = some id)
    (hdispatch : dispatch (utf8 ";") m = .ok true m') :
    m'.engine = { m.engine with
      mode := .execute, defining := none, dict := m.engine.dict.emit id [Opcode.ret.code] } := by
  obtain ⟨m1, hdispatch1, hm1⟩ := dispatch_semicolon hm
  rw [hdispatch] at hdispatch1
  cases hdispatch1
  obtain ⟨f, -, hopened⟩ := hm.engine.opened? hdefining
  rw [hm1.engine, Engine.closed, hopened]

lemma Compiles.compiled (h : Compiles f ws m m') (hm : m.IsSound)
    (hat : m.engine.control = onPrompt) (hself : f ∉ ws) : Compiled f ws m' := by
  obtain ⟨m1, m2, hcompiling, hread, hdispatch⟩ := h
  obtain ⟨hm1, hat1, id, g, body, hdefining, hget, hname, hcode, hbody⟩ :=
    open_of_compiling hcompiling hm hat hself
  obtain ⟨hengine, hm2, hword, hrunning⟩ := hread.engine hm1 hat1
  have hat2 : m2.engine.control = onPrompt := by rw [hengine, hat1]
  obtain ⟨hm', hat'⟩ := (isSound_dispatch hm2 hat2 hword).of_ok hdispatch
  rw [← hengine] at hdefining hget hbody hrunning
  have hclosed := closed_of_dispatch hm2 hdefining hdispatch
  have hid := (hm2.engine.newest id hdefining).1
  have hget' : m'.engine.dict.get? id = some (g.emit [Opcode.ret.code]) := by
    rw [hclosed, Dictionary.get?_emit, if_pos rfl, hget]
    rfl
  refine ⟨hm', hat' rfl, by rw [hclosed]; exact hrunning, by rw [hclosed], id,
    g.emit [Opcode.ret.code], body, ?_, ?_, ⟨hid, _, hget', ?_⟩, ?_⟩
  · rw [← hname]
    exact lookup?_name hm'.engine hget'
  · exact (hm'.engine.words id _ hid hget').immediate
  · rw [Function.emit, hcode]
  · rw [hclosed]
    exact forall₂_emit hbody hget (by rw [hname]; exact hself) _

end ColonMachine.Machine
