import ColonMachine.Proofs.Growth
import ColonMachine.Proofs.Onward

/-!
# Definitions that are never closed

A definition is opened by `:` and closed by `;`.  In between, words are compiled, and a second `:`
is compiled like any other word.  But a finished word can itself run `:`, and then the words after
that are run and not compiled until it is left.  If it runs `:` twice, the first of the two
definitions is given up: the second `:` opens another one, or finds its name taken and closes
nothing.  What was given up stays in the dictionary without code, and nothing will ever add to it.

Nothing else gives a definition up.  `Engine.Clears` says of an instruction, or of a word at the top
level, that the functions it leaves are open, or finished, or were there before as they are; and
that it has given up the open definition only in the one case.  The induction over a run then gives
`definition_given_up`: every function that is not open is finished, or a finished word has run `:`
while it was open.
-/

namespace ColonMachine

/-- The code is that of a finished word: whole instructions, and a return at the end. -/
def Function.IsFinished (f : Function) : Prop :=
  ∃ body, f.code = Instr.assemble body ++ [Opcode.ret.code]

namespace Engine

variable {e e' e'' : Engine} {gone gone' : Prop} {id : FuncId} {f : Function} {p : Primitive}

/-- Every word of `e'` is open, or finished, or was in `e` as it is; and it was open in `e` only if
`gone`. -/
def Clears (gone : Prop) (e e' : Engine) : Prop :=
  ∀ id f, firstUserId ≤ id → e'.dict.get? id = some f → e'.defining ≠ some id →
    f.IsFinished ∨ e.dict.get? id = some f ∧ (e.defining = some id → gone)

lemma Clears.same (hdict : e'.dict = e.dict) (h : e.defining = e'.defining ∨
    e.defining = none ∨ gone) :
    Clears gone e e' := by
  intro id f _ hget hclosed
  refine Or.inr ⟨by rw [← hdict, hget], fun hopen => ?_⟩
  rcases h with h | h | h
  · exact absurd (h ▸ hopen) hclosed
  · rw [h] at hopen
    cases hopen
  · exact h

lemma Clears.weaken (h : Clears False e e') : Clears gone e e' := by
  intro id f hid hget hclosed
  refine (h id f hid hget hclosed).imp_right fun hold => ?_
  exact ⟨hold.1, fun hopen => (hold.2 hopen).elim⟩

lemma Clears.trans (h : Clears gone e e') (h' : Clears False e' e'') : Clears gone e e'' := by
  intro id f hid hget hclosed
  rcases h' id f hid hget hclosed with hfinished | ⟨hget', hclosed'⟩
  · exact Or.inl hfinished
  · exact h id f hid hget' hclosed'

/-- Adding to the open definition leaves it open. -/
lemma clears_emit (hdefining : e.defining = some id) (code : List Code) :
    Clears False e { e with dict := e.dict.emit id code } := by
  intro i f _ hget hclosed
  have hne : i ≠ id := fun h => hclosed (h ▸ hdefining)
  rw [Dictionary.get?_emit, if_neg hne] at hget
  exact Or.inr ⟨hget, fun hopen => absurd hopen hclosed⟩

lemma clears_opened (name : Text) (mode : Mode) (h : e.defining = none ∨ gone) :
    Clears gone e
      { e with mode := mode, defining := some e.dict.nextId, dict := e.dict.add name } := by
  intro id f _ hget hclosed
  have hne : id ≠ e.dict.nextId := fun h => hclosed (by rw [h])
  rw [Dictionary.get?_add, if_neg hne] at hget
  refine Or.inr ⟨hget, fun hopen => ?_⟩
  rcases h with h | h
  · rw [h] at hopen
    cases hopen
  · exact h

/-- What is closed ends with a return from then on. -/
lemma clears_closed (he : Sound e) : Clears False e e.closed := by
  cases hdefining : e.defining with
  | none => exact .same (by simp [closed, opened?, hdefining]) (Or.inr (Or.inl hdefining))
  | some target =>
      obtain ⟨g, hg, hopened⟩ := he.opened? hdefining
      intro id f hid hget _
      rw [closed, hopened] at hget
      dsimp only at hget
      rw [Dictionary.get?_emit] at hget
      split_ifs at hget with htarget
      · subst htarget
        rw [hg] at hget
        cases hget
        obtain ⟨body, -, hcode⟩ := (he.words id g hid hg).pending hdefining
        exact Or.inl ⟨body, congrArg (· ++ [Opcode.ret.code]) hcode⟩
      · refine Or.inr ⟨hget, fun hopen => ?_⟩
        rw [hdefining] at hopen
        cases hopen
        exact htarget rfl

lemma clears_effect (he : Sound e) (hgone : p = .define → e.defining = none ∨ gone)
    (h : Effect e p e') : Clears gone e e' := by
  cases h with
  | stack => exact .same rfl (Or.inl rfl)
  | exit => exact .same rfl (Or.inl rfl)
  | opened => exact clears_opened _ _ (hgone rfl)
  | refused => exact .same rfl (Or.inr (hgone rfl))
  | closed => exact (clears_closed he).weaken

end Engine

open Engine

namespace Machine

variable {α β : Type} {m m' m1 m₀ : Machine} {gone : Prop} {id : FuncId} {f : Function}

/-! ## What is called -/

/-- A primitive that is broken off has not touched the dictionary, and none but `:` the open
definition. -/
lemma primitive_broken (p : Primitive) (m : Machine) :
    Does (primitive p) m (fun _ _ => True) (fun _ m' => m'.engine.dict = m.engine.dict ∧
      (p ≠ .define → m'.engine.defining = m.engine.defining)) := by
  have htalks : ∀ {act : Act Unit}, Talks act → Does act m (fun _ _ => True) (fun _ m' =>
      m'.engine.dict = m.engine.dict ∧ (p ≠ .define → m'.engine.defining = m.engine.defining)) :=
    fun h => (h m).imp (fun _ _ _ => trivial) fun i m' hi => by simp [hi.2]
  have hstack : ∀ f, Does (onStack f) m (fun _ _ => True) (fun _ m' =>
      m'.engine.dict = m.engine.dict ∧ (p ≠ .define → m'.engine.defining = m.engine.defining)) := by
    intro f
    simp only [onStack, does_bind, does_get]
    cases f m.engine.stack with
    | ok s => exact trivial
    | error what => exact ⟨rfl, fun _ => rfl⟩
  cases p with
  | print => exact htalks talks_printTop
  | printStack => exact htalks talks_printStack
  | clear => exact trivial
  | exit =>
      simp only [primitive, exit, does_bind, does_modifyEngine]
      exact (talks_note _ _ m).imp (fun _ _ _ => trivial) fun i m' hi => by simp [hi.2]
  | define =>
      have hname := talks_nextName { m with engine := { m.engine with mode := .compile } }
      cases hread : nextName { m with engine := { m.engine with mode := .compile } } with
      | error i m1 =>
          exact does_of_error (define_of_error hread) ⟨by rw [(hname.of_error hread).2], by simp⟩
      | ok name m1 =>
          obtain ⟨hengine, -⟩ := hname.of_ok hread
          cases hfind : m1.engine.dict.find? name with
          | some id =>
              refine Does.congr ?_ (define_taken hread hfind)
              refine (talks_report _ _).imp (fun _ _ _ => trivial) fun i m2 hi => ⟨?_, by simp⟩
              rw [hi.2, hengine]
          | none => exact does_of_ok (define_new hread hfind) trivial
  | endDefine =>
      obtain ⟨m1, -, hend⟩ := endDefine_eq m
      exact does_of_ok hend trivial
  | words => exact htalks talks_words
  | see => exact htalks talks_see
  | add => exact hstack _
  | sub => exact hstack _
  | mul => exact hstack _
  | div => exact hstack _
  | dup => exact hstack _
  | drop => exact hstack _
  | swap => exact hstack _

/-- From `m` on, the action clears what it leaves behind, however it ends. -/
def Clearing (gone : Prop) (act : Act α) (m : Machine) : Prop :=
  Does act m (fun _ m' => Clears gone m.engine m'.engine)
    (fun _ m' => Clears gone m.engine m'.engine)

lemma Talks.clearing {act : Act α} (h : Talks act) (m : Machine) : Clearing gone act m :=
  (h m).imp (fun _ m' hm' => .same (by rw [hm'.1]) (Or.inl (by rw [hm'.1])))
    fun _ m' hm' => .same (by rw [hm'.2]) (Or.inl (by rw [hm'.2]))

lemma Clearing.weaken {act : Act α} (h : Clearing False act m) : Clearing gone act m :=
  h.imp (fun _ _ hm' => hm'.weaken) fun _ _ hm' => hm'.weaken

lemma Clearing.bind {act : Act α} {next : α → Act β} (h : Clearing gone act m)
    (hnext : ∀ a m', act m = .ok a m' → Clearing False (next a) m') :
    Clearing gone (act >>= next) m := by
  cases hact : act m with
  | ok a m1 =>
      refine Does.congr ?_ (bind_of_ok hact)
      exact (hnext a m1 hact).imp (fun _ _ hm' => (h.of_ok hact).trans hm')
        fun _ _ hm' => (h.of_ok hact).trans hm'
  | error i m1 => exact does_of_error (bind_of_error hact) (h.of_error hact)

/-- What is done after changes that concern neither the dictionary nor the open definition. -/
lemma Clearing.after {act act' : Act α} (h : Clearing gone act' m1) (hact : act m = act' m1)
    (hdict : m1.engine.dict = m.engine.dict) (hdefining : m1.engine.defining = m.engine.defining) :
    Clearing gone act m := by
  have hclears : ∀ e, Clears gone m1.engine e → Clears gone m.engine e := by
    intro e he id f hid hget hclosed
    rw [← hdict, ← hdefining]
    exact he id f hid hget hclosed
  exact Does.congr (h.imp (fun _ m' => hclears m'.engine) fun _ m' => hclears m'.engine) hact

lemma Becomes.clears {e : Engine} (h : Becomes m e m') (hdict : e.dict = m.engine.dict)
    (hdefining : e.defining = m.engine.defining) : Clears gone m.engine m'.engine :=
  .same (by rw [h.engine, hdict]) (Or.inl (by rw [h.engine, hdefining]))

lemma clearing_primitive {p : Primitive} (hm : m.IsSound)
    (hgone : p = .define → m.engine.defining = none ∨ gone) : Clearing gone (primitive p) m := by
  cases hp : primitive p m with
  | ok _ m' =>
      exact does_of_ok hp
        (clears_effect hm.engine hgone ((primitive_effect p m hm.input).of_ok hp).1)
  | error i m' =>
      obtain ⟨hdict, hdefining⟩ := (primitive_broken p m).of_error hp
      refine does_of_error hp (.same hdict ?_)
      by_cases h : p = .define
      · exact Or.inr (hgone h)
      · exact Or.inl (hdefining h).symm

lemma clearing_call (hm : m.IsSound) (hget : m.engine.dict.get? id = some f)
    (hcall : Callable m.engine.dict id f)
    (hgone : f.native = some (.primitive .define) → m.engine.defining = none ∨ gone) :
    Clearing gone (call id) m := by
  cases hcall with
  | primitive p hcode hnative _ =>
      refine (clearing_primitive hm ?_).after (call_primitive hget hcode hnative) rfl rfl
      rintro rfl
      exact hgone hnative
  | empty hcode hnative => exact does_of_ok (call_empty hget hcode hnative) (.same rfl (Or.inl rfl))
  | word body _ hbody =>
      by_cases hfull : m.engine.Full
      · exact does_of_error (call_full hbody hfull) (.same rfl (Or.inl rfl))
      · obtain ⟨m', hm', hok⟩ := call_word hbody hfull
        exact does_of_ok hok (hm'.clears rfl rfl)

/-! ## A word at the top level -/

/-- No word at the top level gives a definition up: while one is open, words are compiled. -/
lemma clearing_dispatch {word : Text} (hm : m.IsSound) (hword : word.IsWord) :
    Clearing False (dispatch word) m := by
  cases dispatching hm.engine hword with
  | @close m1 _ _ _ _ _ _ hm1 hdispatch =>
      have hsound := hm1.isSound hm hm.engine
      refine Clearing.after ?_ hdispatch (by rw [hm1.engine]) (by rw [hm1.engine])
      exact (clearing_primitive hsound (by simp)).bind fun _ m' _ => (talks_pure true).clearing m'
  | run hlookup _ hmode hcall hdispatch =>
      have hclosed : m.engine.defining = none := by
        by_contra hopen
        rw [hm.engine.mode.mpr (Option.isSome_iff_ne_none.mpr hopen)] at hmode
        cases hmode
      refine Clearing.after ?_ hdispatch rfl rfl
      exact (clearing_call hm (get?_of_lookup? hlookup).1 hcall fun _ => Or.inl hclosed).bind
        fun _ m' _ => (talks_pure _).clearing m'
  | compile _ _ _ hdefining _ _ hm1 hdispatch =>
      refine does_of_ok hdispatch ?_
      rw [hm1.engine]
      exact clears_emit hdefining _
  | refuse _ _ _ _ hdispatch =>
      exact (((talks_report _).bind fun _ => talks_pure true).clearing m).after hdispatch rfl rfl
  | number _ _ _ hdispatch => exact does_of_ok hdispatch (.same rfl (Or.inl rfl))
  | literal _ _ _ hdefining hm1 hdispatch =>
      refine does_of_ok hdispatch ?_
      rw [hm1.engine]
      exact clears_emit hdefining _
  | @unknown m1 _ _ _ hm1 hdispatch =>
      exact (((talks_report _).bind fun _ => talks_pure true).clearing m1).after hdispatch
        (by rw [hm1.engine]) (by rw [hm1.engine])

lemma clearing_read (hm : m.IsSound) : Clearing False read m := by
  refine (talks_nextWord.clearing m).bind fun word m1 hnext => ?_
  have hm1 := talks_nextWord.isSound hm hnext
  cases word with
  | none => exact (talks_pure false).clearing m1
  | some word => exact clearing_dispatch hm1 (isWord_of_nextWord hm.input hnext)

/-- The induction is over the words that are read. -/
lemma clearing_prompt (hm : m.IsSound) (hat : m.engine.control = onPrompt) :
    Clearing False prompt m := by
  induction m using prompt.induct with
  | case1 m hrunning m1 hread ih =>
      obtain ⟨hm1, hat1⟩ := (isSound_read hm hat).of_ok hread
      have hclears := (clearing_read hm).of_ok hread
      refine Does.congr ?_ (prompt_again hrunning hread)
      exact (ih hm1 (hat1 rfl)).imp (fun _ _ h => hclears.trans h) fun _ _ h => hclears.trans h
  | case2 m hrunning m1 hread =>
      exact does_of_ok (prompt_ended hrunning hread) ((clearing_read hm).of_ok hread)
  | case3 m hrunning i m1 hread =>
      exact does_of_error (prompt_broken hrunning hread) ((clearing_read hm).of_error hread)
  | case4 m hrunning => exact does_of_ok (prompt_stopped hrunning) (.same rfl (Or.inl rfl))

/-! ## One instruction, and many -/

/-- The next instruction is a call of `:` in the code of a finished word. -/
def RunsColon (m : Machine) : Prop :=
  ∃ past rest callee, Spot m.engine.dict m.engine.fn m.engine.pc past (.call callee :: rest) ∧
    m.engine.dict.find? (utf8 ":") = some (Code.callee callee)

/-- **The step lemma.**  An instruction gives up the open definition only if it runs `:`. -/
lemma clearing_step (hm : m.IsSound) : Clearing m.RunsColon step m := by
  cases stepping hm.engine with
  | line hfn _ hframes hm1 hat hstep =>
      have hsound := hm1.isSound hm (hm.engine.top hfn hframes (Or.inr rfl))
      exact (clearing_prompt hsound hat).weaken.after hstep (by rw [hm1.engine])
        (by rw [hm1.engine])
  | jump _ _ _ hm1 hstep =>
      exact does_of_ok hstep (hm1.clears rfl rfl)
  | back _ _ _ hm1 hstep =>
      exact does_of_ok hstep (hm1.clears rfl rfl)
  | push _ hm1 hstep =>
      exact does_of_ok hstep (hm1.clears rfl rfl)
  | @call m1 past rest callee f hspot hget hcall _ hm1 hstep =>
      have hopen := hm.engine.untouched_of_word hspot.finished.ne_boot
      have hsound := hm1.isSound hm
        (hm.engine.moved (Or.inr hopen) (hm.engine.active.move hspot.next) hm.engine.depth)
      have hdict : m1.engine.dict = m.engine.dict := by rw [hm1.engine]
      rw [← hdict] at hget hcall
      refine (clearing_call hsound hget hcall fun hdefine => Or.inr ?_).after hstep hdict
        (by rw [hm1.engine])
      refine ⟨past, rest, callee, hspot, ?_⟩
      rw [← hdict]
      exact (hsound.engine.find?_reader hget hdefine).1 rfl

lemma clearing_recover (what : Fault) (m : Machine) : Clearing False (recover what) m := by
  refine ((talks_note _ _).clearing m).bind fun _ m1 _ => ?_
  refine ((talks_report _).clearing m1).bind fun _ m2 _ => ?_
  exact Clears.same rfl (Or.inl rfl)

lemma clearing_instruct (hm : m.IsSound) : Clearing m.RunsColon instruct m := by
  refine Clearing.bind ?_ fun outcome m1 _ => ?_
  · have hstep := clearing_step hm
    rw [Clearing, Does, attempt]
    rcases hresult : step m with ⟨_, m1⟩ | ⟨_ | _ | _ | _, m1⟩
    · exact hstep.of_ok hresult
    all_goals exact hstep.of_error hresult
  · cases outcome with
    | ok _ => exact (talks_pure ()).clearing m1
    | error what => exact clearing_recover what m1

lemma clearing_tick (hm : m.IsSound) (context : Context) :
    Clearing m.RunsColon (tick context) m := by
  refine Clearing.after ?_ (tick_eq context m) rfl rfl
  refine (clearing_instruct hm).bind fun _ m1 _ => ?_
  exact ((talks_haltIf _).bind fun _ => talks_pure _).clearing m1

/-- The function has neither code nor a native: a finished word has run `:`, in a run of `m₀`, while
it was the open definition. -/
structure GivenUp (m₀ : Machine) (id : FuncId) (f : Function) : Prop where
  code : f.code = []
  native : f.native = none
  moment : ∃ m, m₀.Reaches m ∧ m.engine.running = true ∧ m.engine.defining = some id ∧ m.RunsColon

/-- Every word is finished, or open, or was given up in a run of `m₀`. -/
def Accounted (m₀ m : Machine) : Prop :=
  ∀ id f, firstUserId ≤ id → m.engine.dict.get? id = some f → m.engine.defining ≠ some id →
    f.IsFinished ∨ m₀.GivenUp id f

lemma Accounted.clears (h : Accounted m₀ m) (hm : m.IsSound) (hreach : m₀.Reaches m)
    (hrunning : m.engine.running = true) (hclears : Clears m.RunsColon m.engine m'.engine) :
    Accounted m₀ m' := by
  intro id f hid hget hclosed
  rcases hclears id f hid hget hclosed with hfinished | ⟨hold, hgone⟩
  · exact Or.inl hfinished
  · by_cases hopen : m.engine.defining = some id
    · -- a word is running, so nothing has been compiled into the definition it gives up
      obtain ⟨past, rest, callee, hspot, hcolon⟩ := hgone hopen
      have hword := hm.engine.words id f hid hold
      exact Or.inr ⟨hword.untouched hopen hspot.finished.ne_boot, hword.native, m, hreach, hrunning,
        hopen, past, rest, callee, hspot, hcolon⟩
    · exact h id f hid hold hopen

lemma Accounted.same (h : Accounted m₀ m) (hdict : m'.engine.dict = m.engine.dict)
    (hdefining : m'.engine.defining = m.engine.defining) : Accounted m₀ m' := by
  intro id f hid hget hclosed
  rw [hdict] at hget
  rw [hdefining] at hclosed
  exact h id f hid hget hclosed

/-- **The run lemma.**  The induction is over the instructions. -/
lemma accounted_exec (hm₀ : m₀.IsSound) (hreach : m₀.Reaches m) (h : Accounted m₀ m) (fuel : ℕ)
    (context : Context) : Accounted m₀ (Result.machine (exec fuel context m)) := by
  induction fuel generalizing m context with
  | zero => exact h
  | succ fuel ih =>
      cases hrunning : m.engine.running with
      | false =>
          rw [exec_stopped hrunning]
          exact h
      | true =>
          have hm := isSound_of_reaches hm₀ hreach
          have hclears := clearing_tick hm context
          cases htick : tick context m with
          | ok context' m1 =>
              rw [exec_tick hrunning htick]
              exact ih (hreach.tick hrunning htick)
                (h.clears hm hreach hrunning (hclears.of_ok htick)) context'
          | error i m1 =>
              rw [exec_broken hrunning htick]
              exact h.clears hm hreach hrunning (hclears.of_error htick)

/-- The machine comes up in a run of `m₀`: between two instructions, between two words of a line, or
where the run ends. -/
inductive During (m₀ : Machine) : Machine → Prop where
  | between {m : Machine} (h : m₀.Reaches m) : During m₀ m
  | word {m : Machine} (h : TopLevel m₀ m) : During m₀ m
  | ended (fuel : ℕ) (context : Context) : During m₀ (run fuel context m₀).2

lemma Fresh.accounted (h : m₀.Fresh) : Accounted m₀ (m₀.indent true) := by
  intro id f hid hget
  have hsize : (m₀.indent true).engine.dict = Dictionary.initial := by
    change m₀.engine.dict = _
    rw [h.engine]
    rfl
  rw [hsize] at hget
  exact absurd hid (Int.not_le.mpr (Dictionary.bounds_of_get? hget).2)

lemma During.accounted (h : During m₀ m) (hm₀ : m₀.Fresh) : Accounted m₀ m := by
  have hsound := hm₀.isSound
  have hstart : m₀.Reaches (m₀.indent true) := reaches_iff_leads.mpr (leads_refl _)
  have hreached : ∀ m, m₀.Reaches m → Accounted m₀ m := by
    rintro m ⟨fuel, context, stopped, hexec⟩
    have hm := accounted_exec hsound hstart hm₀.accounted fuel context
    rwa [hexec] at hm
  cases h with
  | between h => exact hreached m h
  | word h =>
      induction h with
      | enter hreach _ _ hm' _ =>
          exact (hreached _ hreach).same (by rw [hm'.engine]) (by rw [hm'.engine])
      | word h _ hread ih =>
          intro id f hid hget hclosed
          rcases (clearing_read (h.isSound hsound).1).of_ok hread id f hid hget hclosed with
            hfinished | ⟨hold, hopen⟩
          · exact Or.inl hfinished
          · exact ih id f hid hold hopen
  | ended fuel context =>
      have hm := accounted_exec hsound hstart hm₀.accounted fuel context
      have hengine := engine_run fuel context m₀
      exact hm.same (by rw [hengine]) (by rw [hengine])

lemma During.grows (h : During m₀ m) (hm₀ : m₀.IsSound) : m₀.engine.Grows m.engine := by
  have hreached : ∀ m, m₀.Reaches m → m₀.engine.Grows m.engine := by
    rintro m ⟨fuel, context, stopped, hexec⟩
    have hchanges := changes_exec fuel context (m := m₀.indent true) hm₀.input
    rw [hexec] at hchanges
    exact hchanges.grows
  cases h with
  | between h => exact hreached m h
  | word h =>
      induction h with
      | enter hreach _ _ hm' _ =>
          exact (hreached _ hreach).trans (.same (by rw [hm'.engine]) (Or.inl (by rw [hm'.engine])))
      | word h _ hread ih =>
          have hchanges := proceeds_read _ (h.isSound hm₀).1.input
          rw [hread] at hchanges
          exact ih.trans hchanges.grows
  | ended fuel context => exact (changes_run fuel context hm₀.input).grows

/-- The functions from the start have code or a native, and keep it. -/
lemma During.not_empty (h : During m₀ m) (hm₀ : m₀.Fresh) (hid : id < firstUserId)
    (hget : m.engine.dict.get? id = some f) (hcode : f.code = []) : f.native ≠ none := by
  obtain ⟨i, rfl⟩ := Int.eq_ofNat_of_zero_le (Dictionary.bounds_of_get? hget).1
  have hsound := hm₀.isSound.engine
  have hi : i < m₀.engine.dict.functions.length := by
    rw [hm₀.engine]
    exact Int.ofNat_lt.mp hid
  have hkept := List.prefix_iff_getElem?.mp (hm₀.builtins (h.grows hm₀.isSound)) i hi
  have hget₀ : m₀.engine.dict.get? i = some f :=
    (List.getElem?_eq_getElem hi).trans (hkept.symm.trans hget)
  by_cases hboot : (i : FuncId) = bootId
  · rw [hboot, hsound.get?_boot] at hget₀
    cases hget₀
    cases hcode
  · obtain ⟨-, -, p, hp, -⟩ := hsound.builtin_cases hid hboot hget₀
    simp [hp]

/-- **What becomes of a definition.**  Wherever a run of a new machine stands or has ended, every
word other than the open definition is finished and ends with a return, or it has no code at all and
was given up: the code of some finished word has run `:` while it was open.  So a function that has
neither code nor a native is the open definition, or was given up. -/
theorem unfinished_word_given_up {settings : List Setting} (hnew : create settings = .ok m₀)
    (hm : During m₀ m) :
    (∀ id f, firstUserId ≤ id → m.engine.dict.get? id = some f → m.engine.defining ≠ some id →
      f.IsFinished ∨ m₀.GivenUp id f) ∧
    ∀ id f, m.engine.dict.get? id = some f → f.code = [] → f.native = none →
      m.engine.defining = some id ∨ m₀.GivenUp id f := by
  have hfresh := fresh_create hnew
  have haccounted := hm.accounted hfresh
  refine ⟨haccounted, ?_⟩
  intro id f hget hcode hnative
  by_cases hid : id < firstUserId
  · exact absurd hnative (hm.not_empty hfresh hid hget hcode)
  · by_cases hopen : m.engine.defining = some id
    · exact Or.inl hopen
    · rcases haccounted id f (Int.not_lt.mp hid) hget hopen with ⟨body, hbody⟩ | hgiven
      · simp [hbody] at hcode
      · exact Or.inr hgiven

/-- A finished word that runs `:` takes a name from the line it was called on. -/
lemma step_colon {past rest : List Instr} {callee : Code} {name : Text} {line : List Text}
    (hspot : Spot m.engine.dict m.engine.fn m.engine.pc past (.call callee :: rest))
    (hget : m.engine.dict.get? (Code.callee callee) = some f) (hcode : f.code = [])
    (hnative : f.native = some (.primitive .define))
    (hbuffer : m.input.buffer = some (name :: line)) (hnew : m.engine.dict.find? name = none) :
    ∃ m', step m = .ok () m' ∧ m'.input.buffer = some line ∧
      m'.engine = { m.engine with
        pc := m.engine.pc + 2, mode := .compile, defining := some m.engine.dict.nextId
        dict := m.engine.dict.add name } := by
  obtain ⟨m1, hm1, hstep⟩ := step_call hspot
  obtain ⟨m2, hword, hengine, -, hinput⟩ := nextWord_of_word
    (m := { m1 with engine := { m1.engine with mode := .compile } }) (hm1.input ▸ hbuffer)
  have hnew2 : m2.engine.dict.find? name = none := by rw [hengine, hm1.engine]; exact hnew
  refine ⟨_, hstep.trans ((call_primitive ?_ hcode hnative).trans
    (define_new (nextName_of_word hword) hnew2)), ?_, ?_⟩
  · rw [hm1.engine]
    exact hget
  · rw [input_noted, hinput]
  · rw [engine_noted, hengine, hm1.engine]

/-- The session `: g : : ;` and `g a b ;`, where `g` has just been called. -/
lemma exists_called : ∃ m₀ m, create [.written [] (.ok (utf8 ": g : : ;\ng a b ;\n"))] = .ok m₀ ∧
    m₀.Reaches m ∧ m.input.buffer = some [utf8 "a", utf8 "b", utf8 ";"] ∧
    m.engine = { m₀.engine with
      dict := Dictionary.initial.push { name := utf8 "g", code := [0, 12, 0, 12, 5] }
      fn := 16, pc := -1, frames := [⟨bootId, 0⟩], running := true } := by
  obtain ⟨m₀, hnew⟩ : ∃ m₀, create [.written [] (.ok (utf8 ": g : : ;\ng a b ;\n"))] = .ok m₀ :=
    ⟨_, rfl⟩
  obtain ⟨a, hline, b, hjump, m, hcall, ha, hb, hm₀, hbuffer, hengine⟩ :
      ∃ a, step (m₀.indent true) = .ok () a ∧ ∃ b, step a = .ok () b ∧ ∃ m, step b = .ok () m ∧
        a.engine.running = true ∧ b.engine.running = true ∧ (m₀.indent true).engine.running = true ∧
        m.input.buffer = some [utf8 "a", utf8 "b", utf8 ";"] ∧
        m.engine = { m₀.engine with
          dict := Dictionary.initial.push { name := utf8 "g", code := [0, 12, 0, 12, 5] }
          fn := 16, pc := -1, frames := [⟨bootId, 0⟩], running := true } := by
    cases hnew
    refine ⟨_,
      (prompt_again rfl (read_of_word (w := utf8 ":") rfl ((dispatch_of_call rfl rfl rfl).trans
      (bind_of_ok (define_new (nextName_of_word rfl) rfl))))).trans ((prompt_again rfl rfl).trans
        ((prompt_again rfl rfl).trans ((prompt_again rfl rfl).trans (prompt_ended rfl rfl)))), ?_⟩
    refine ⟨_, rfl, ?_⟩
    refine ⟨_, prompt_ended rfl rfl, ?_⟩
    exact ⟨rfl, rfl, rfl, rfl, rfl⟩
  refine ⟨m₀, m, hnew, reaches_iff_leads.mpr ?_, hbuffer, hengine⟩
  exact (leads_of_step hm₀ hline).trans ((leads_of_step ha hjump).trans (leads_of_step hb hcall))

/-- The same session, where `g` has run `:` twice. -/
lemma exists_opened_twice :
    ∃ m₀ m, create [.written [] (.ok (utf8 ": g : : ;\ng a b ;\n"))] = .ok m₀ ∧ m₀.Reaches m ∧
      m.engine.defining = some 18 ∧
      m.engine.dict = ((Dictionary.initial.push { name := utf8 "g", code := [0, 12, 0, 12, 5] }).add
        (utf8 "a")).add (utf8 "b") := by
  obtain ⟨m₀, m, hnew, hreach, hbuffer, hengine⟩ := exists_called
  have hspot : Spot m.engine.dict m.engine.fn m.engine.pc [] [.call 12, .call 12] := by
    rw [hengine]
    exact ⟨⟨Int.le_refl _, _, rfl, rfl⟩, rfl⟩
  obtain ⟨m1, hstep1, hbuffer1, hengine1⟩ := step_colon hspot
    (f := { name := utf8 ":", native := some (.primitive .define) }) (by rw [hengine]; rfl) rfl
      rfl hbuffer
    (by rw [hengine]; rfl)
  rw [hengine] at hengine1
  have hspot1 : Spot m1.engine.dict m1.engine.fn m1.engine.pc [.call 12] [.call 12] := by
    rw [hengine1]
    exact ⟨⟨Int.le_refl _, _, rfl, rfl⟩, rfl⟩
  obtain ⟨m2, hstep2, -, hengine2⟩ := step_colon hspot1
    (f := { name := utf8 ":", native := some (.primitive .define) }) (by rw [hengine1]; rfl) rfl rfl
      hbuffer1
    (by rw [hengine1]; rfl)
  rw [hengine1] at hengine2
  refine ⟨m₀, m2, hnew, ?_, by rw [hengine2]; rfl, by rw [hengine2]⟩
  exact hreach.leads ((leads_of_step (by rw [hengine]) hstep1).trans
    (leads_of_step (by rw [hengine1]) hstep2))

/-- **A definition is given up.**  When `g` has run `:` twice, `b` is the open definition, and `a`
has neither code nor a native. -/
theorem definition_given_up_for_another :
    ∃ m₀ m f, create [.written [] (.ok (utf8 ": g : : ;\ng a b ;\n"))] = .ok m₀ ∧ m₀.Reaches m ∧
      firstUserId ≤ 17 ∧ m.engine.dict.get? 17 = some f ∧ m.engine.defining ≠ some 17 ∧
      ¬ f.IsFinished ∧ f.code = [] ∧ f.native = none := by
  obtain ⟨m₀, m, hnew, hreach, hdefining, hdict⟩ := exists_opened_twice
  refine ⟨m₀, m, { name := utf8 "a" }, hnew, hreach, by decide, by rw [hdict]; rfl,
    by simp [hdefining], ?_, rfl, rfl⟩
  rintro ⟨body, hbody⟩
  simp at hbody

/-- In that session the word `a` was given up, and `g` is finished. -/
theorem unfinished_word_given_up_of_colons :
    ∃ m₀ m a g, create [.written [] (.ok (utf8 ": g : : ;\ng a b ;\n"))] = .ok m₀ ∧ During m₀ m ∧
      m.engine.defining = some 18 ∧ m.engine.dict.get? 17 = some a ∧ a.name = utf8 "a" ∧
      m₀.GivenUp 17 a ∧ m.engine.dict.get? 16 = some g ∧ g.name = utf8 "g" ∧
      (g.IsFinished ∨ m₀.GivenUp 16 g) ∧ g.code ≠ [] := by
  obtain ⟨m₀, m, hnew, hreach, hdefining, hdict⟩ := exists_opened_twice
  have ha : m.engine.dict.get? 17 = some { name := utf8 "a" } := by rw [hdict]; rfl
  have hg : m.engine.dict.get? 16 = some { name := utf8 "g", code := [0, 12, 0, 12, 5] } := by
    rw [hdict]
    rfl
  obtain ⟨hwords, hempty⟩ := unfinished_word_given_up hnew (.between hreach)
  have hgiven : m₀.GivenUp 17 { name := utf8 "a" } :=
    (hempty 17 _ ha rfl rfl).resolve_left (by simp [hdefining])
  exact ⟨m₀, m, _, _, hnew, .between hreach, hdefining, ha, rfl, hgiven, hg, rfl,
    hwords 16 _ (by decide) hg (by simp [hdefining]), by simp⟩

end Machine

end ColonMachine
