import ColonMachine.Proofs.Events
import ColonMachine.Proofs.Indexing

/-!
# Machines of any kind

A machine need not have come out of a run.  Its code may be any bytes, its counter may stand
anywhere, its frames may lead to functions that there are not, it may compile without a definition
or into a function that is running.  Of the dictionary it is assumed only that it is `Stock`:
whatever is native in it is a primitive.

Such a machine is still safe to step (`step_of_stock`).  The instruction completes, or it raises a
fault and what the fault says is the case (`Fault.Holds`), or it halts the session for the failure
of a dealing with the world outside.  Nothing is accessed out of range.  After a fault the machine
stands before the top level loop without any call, and if the code of the loop is still there, the
next instruction is its prompt.

`orderly_step` is the step lemma, with one lemma for each action that instructions are made of;
`orderly_exec` is the run lemma.
-/

namespace ColonMachine

/-- Whatever is native is a primitive. -/
def Dictionary.Stock (d : Dictionary) : Prop :=
  ∀ id f n, d.get? id = some f → f.native = some n → ∃ p, n = .primitive p

/-- What a fault says is the case.  There is no way to make up a fault. -/
inductive Fault.Holds (e : Engine) : Fault → Prop where
  | stackUnderflow (h : e.stack.length < 2) : Holds e .stackUnderflow
  | divisionByZero (h : e.stack.head? = some 0) : Holds e .divisionByZero
  | returnOverflow (h : e.Full) : Holds e .returnOverflow
  | returnUnderflow (h : e.frames = []) : Holds e .returnUnderflow
  | notDefining (hmode : e.mode = .compile) (h : e.opened? = none) : Holds e .notDefining
  | badOpcode {code : Code} (hbyte : (e.dict.get? e.fn).bind (Machine.codeAt? · e.pc) = some code)
      (h : Opcode.ofCode? code = none) : Holds e (.badOpcode code e.pc)
  /-- The position that was left for is `position`, and the counter is its 64 bits. -/
  | outOfBounds {position : ℤ} (hpc : e.pc = Machine.wrapped position)
      (h : (e.dict.get? e.fn).bind (Machine.codeAt? · position) = none) :
      Holds e (.outOfBounds e.fn e.pc)
  | undefinedCall {id : FuncId} (h : e.dict.get? id = none) : Holds e (.undefinedCall id)

namespace Dictionary.Stock

variable {d : Dictionary}

lemma add (h : d.Stock) (name : Text) : (d.add name).Stock := by
  intro id f n hget hnative
  rw [get?_add] at hget
  split_ifs at hget
  · cases hget
    cases hnative
  · exact h id f n hget hnative

lemma emit (h : d.Stock) (target : FuncId) (code : List Code) : (d.emit target code).Stock := by
  intro id f n hget hnative
  rw [get?_emit] at hget
  split_ifs at hget
  · obtain ⟨g, hg, rfl⟩ := Option.map_eq_some_iff.mp hget
    exact h id g n hg hnative
  · exact h id f n hget hnative

lemma closed {e : Engine} (h : e.dict.Stock) : e.closed.dict.Stock := by
  rw [Engine.closed]
  cases e.opened? with
  | none => exact h
  | some opened => exact h.emit _ _

end Dictionary.Stock

lemma Dictionary.stock_initial : Dictionary.initial.Stock := by
  have hall :
      ∀ f ∈ Dictionary.initial.functions, ∀ n, f.native = some n → ∃ p, n = .primitive p := by
    simp [Dictionary.initial, enginePrimitives, ofPrimitive]
  intro id f n hget hnative
  cases id with
  | ofNat i => exact hall f (List.mem_of_getElem? hget) n hnative
  | negSucc i => cases hget

namespace Machine

variable {α β : Type} {m m' : Machine}

/-- How an instruction is interrupted: by a halt, or by a fault that is the case. -/
def Trouble (i : Interrupt) (m' : Machine) : Prop :=
  m'.engine.dict.Stock ∧
    ((∃ cause, i = .halt cause) ∨ ∃ what, i = .fault what ∧ what.Holds m'.engine)

/-- From `m`, the action completes, or gets into trouble. -/
def Orderly (act : Act α) (m : Machine) : Prop :=
  Does act m (fun _ m' => m'.engine.dict.Stock) Trouble

lemma orderly_bind {act : Act α} {next : α → Act β} :
    Orderly (act >>= next) m ↔ Does act m (fun a m' => Orderly (next a) m') Trouble :=
  does_bind act next _ _

lemma Orderly.bind {act : Act α} {next : α → Act β} (h : Orderly act m)
    (hnext : ∀ a m', m'.engine.dict.Stock → Orderly (next a) m') : Orderly (act >>= next) m :=
  orderly_bind.mpr (h.imp hnext fun _ _ hi => hi)

lemma Talks.orderly {act : Act α} (h : Talks act) (hm : m.engine.dict.Stock) : Orderly act m := by
  refine (h m).imp (fun a m' hm' => ?_) fun i m' hi => ⟨?_, Or.inl hi.1⟩
  · rwa [hm'.1]
  · rwa [hi.2]

lemma trouble_fault {what : Fault} (hm : m.engine.dict.Stock) (h : what.Holds m.engine) :
    Trouble (.fault what) m :=
  ⟨hm, Or.inr ⟨what, rfl, h⟩⟩

/-! ## Primitives -/

lemma orderly_onStack {f : Stack → Except Fault Stack}
    (hf : ∀ e : Engine, ∀ what, f e.stack = .error what → what.Holds e) (hm : m.engine.dict.Stock) :
    Orderly (onStack f) m := by
  rw [onStack, Orderly, does_bind, does_get]
  cases hs : f m.engine.stack with
  | ok s => exact hm
  | error what => exact trouble_fault hm (hf _ _ hs)

lemma holds_of_binary {op : Int32 → Int32 → Int32} (e : Engine) (what : Fault)
    (h : Stack.binary op e.stack = .error what) : what.Holds e := by
  rcases hs : e.stack with _ | ⟨b, _ | ⟨a, s⟩⟩ <;> rw [hs] at h <;> cases h
  · exact .stackUnderflow (by simp [hs])
  · exact .stackUnderflow (by simp [hs])

lemma holds_of_divide (e : Engine) (what : Fault) (h : Stack.divide e.stack = .error what) :
    what.Holds e := by
  rcases hs : e.stack with _ | ⟨b, _ | ⟨a, s⟩⟩ <;> rw [hs] at h
  · cases h
    exact .stackUnderflow (by simp [hs])
  · cases h
    exact .stackUnderflow (by simp [hs])
  · simp only [Stack.divide] at h
    split_ifs at h with hzero
    cases h
    exact .divisionByZero (by simp [hs, hzero])

lemma holds_of_dup (e : Engine) (what : Fault) (h : Stack.dup e.stack = .error what) :
    what.Holds e := by
  rcases hs : e.stack with _ | ⟨a, s⟩ <;> rw [hs] at h <;> cases h
  exact .stackUnderflow (by simp [hs])

lemma holds_of_drop (e : Engine) (what : Fault) (h : Stack.drop e.stack = .error what) :
    what.Holds e := by
  rcases hs : e.stack with _ | ⟨a, s⟩ <;> rw [hs] at h <;> cases h
  exact .stackUnderflow (by simp [hs])

lemma holds_of_swap (e : Engine) (what : Fault) (h : Stack.swap e.stack = .error what) :
    what.Holds e := by
  rcases hs : e.stack with _ | ⟨b, _ | ⟨a, s⟩⟩ <;> rw [hs] at h <;> cases h
  · exact .stackUnderflow (by simp [hs])
  · exact .stackUnderflow (by simp [hs])

lemma orderly_define (hm : m.engine.dict.Stock) : Orderly define m := by
  have hname := talks_nextName { m with engine := { m.engine with mode := .compile } }
  cases hread : nextName { m with engine := { m.engine with mode := .compile } } with
  | error i m1 =>
      obtain ⟨hhalt, hengine⟩ := hname.of_error hread
      exact does_of_error (define_of_error hread) ⟨by rw [hengine]; exact hm, Or.inl hhalt⟩
  | ok name m1 =>
      have hm1 : m1.engine.dict.Stock := by rw [(hname.of_ok hread).1]; exact hm
      cases hfind : m1.engine.dict.find? name with
      | some id =>
          refine Does.congr ?_ (define_taken hread hfind)
          exact (talks_report _).orderly hm1
      | none =>
          refine does_of_ok (define_new hread hfind) ?_
          rw [engine_noted]
          exact hm1.add name

lemma orderly_endDefine (hm : m.engine.dict.Stock) : Orderly endDefine m := by
  obtain ⟨m1, hm1, hend⟩ := endDefine_eq m
  refine does_of_ok hend ?_
  rw [hm1.engine]
  exact hm.closed

lemma orderly_exit (hm : m.engine.dict.Stock) : Orderly exit m :=
  ((talks_note _ _).orderly hm).bind fun _ _ hm1 => hm1

lemma orderly_primitive (p : Primitive) (hm : m.engine.dict.Stock) : Orderly (primitive p) m := by
  cases p with
  | print => exact talks_printTop.orderly hm
  | printStack => exact talks_printStack.orderly hm
  | add => exact orderly_onStack holds_of_binary hm
  | sub => exact orderly_onStack holds_of_binary hm
  | mul => exact orderly_onStack holds_of_binary hm
  | div => exact orderly_onStack holds_of_divide hm
  | dup => exact orderly_onStack holds_of_dup hm
  | drop => exact orderly_onStack holds_of_drop hm
  | clear => exact hm
  | swap => exact orderly_onStack holds_of_swap hm
  | exit => exact orderly_exit hm
  | define => exact orderly_define hm
  | endDefine => exact orderly_endDefine hm
  | words => exact talks_words.orderly hm
  | see => exact talks_see.orderly hm

/-! ## Calls and words -/

lemma orderly_pushFrame (frame : Frame) (hm : m.engine.dict.Stock) :
    Orderly (pushFrame frame) m := by
  rw [pushFrame, Orderly, does_bind, does_get]
  dsimp only
  split_ifs with hfull
  · exact trouble_fault hm (.returnOverflow (by simpa [Engine.Full] using hfull))
  · exact hm

lemma orderly_call (id : FuncId) (hm : m.engine.dict.Stock) : Orderly (call id) m := by
  rw [call, Orderly, does_bind, does_get]
  dsimp only
  cases hget : m.engine.dict.get? id with
  | none => exact trouble_fault hm (.undefinedCall hget)
  | some f =>
      dsimp only
      split_ifs
      · cases hnative : f.native with
        | none => exact hm
        | some n =>
            obtain ⟨p, rfl⟩ := hm id f n hget hnative
            exact orderly_primitive p hm
      · refine (orderly_pushFrame _ hm).bind fun _ m1 hm1 => ?_
        exact ((talks_note _ _).orderly hm1).bind fun _ _ hm2 => hm2

lemma orderly_ret (hm : m.engine.dict.Stock) : Orderly ret m := by
  rw [ret, Orderly, does_bind, popFrame, does_bind, does_get]
  cases hframes : m.engine.frames with
  | nil => exact trouble_fault hm (.returnUnderflow hframes)
  | cons frame frames =>
      simp only [does_bind, does_modifyEngine, does_pure, does_get]
      cases m.engine.dict.get? frame.fn with
      | none => exact hm
      | some f => exact (talks_note _ _).orderly hm

lemma orderly_compileCall (word : Text) (id : FuncId) (hmode : m.engine.mode = .compile)
    (hm : m.engine.dict.Stock) : Orderly (compileCall word id) m := by
  rw [compileCall, Orderly, does_bind, does_get]
  cases hopened : m.engine.opened? with
  | none => exact trouble_fault hm (.notDefining hmode hopened)
  | some opened =>
      dsimp only
      split_ifs
      · exact (talks_report _).orderly hm
      · exact ((talks_note _ _).orderly hm).bind fun _ _ hm1 => hm1.emit _ _

lemma orderly_compileLiteral (n : Int32) (hmode : m.engine.mode = .compile)
    (hm : m.engine.dict.Stock) :
    Orderly (compileLiteral n) m := by
  rw [compileLiteral, Orderly, does_bind, does_get]
  cases hopened : m.engine.opened? with
  | none => exact trouble_fault hm (.notDefining hmode hopened)
  | some opened => exact ((talks_note _ _).orderly hm).bind fun _ _ hm1 => hm1.emit _ _

lemma orderly_dispatchFunction (word : Text) (id : FuncId) (f : Function)
    (hm : m.engine.dict.Stock) :
    Orderly (dispatchFunction word id f) m := by
  rw [dispatchFunction]
  split_ifs
  · refine ((talks_note _ _).orderly hm).bind fun _ m1 hm1 => ?_
    exact (orderly_call id hm1).bind fun _ _ hm2 => hm2
  · rw [Orderly, does_bind, does_get]
    cases hmode : m.engine.mode with
    | execute => exact (orderly_call id hm).bind fun _ _ hm1 => hm1
    | compile => exact (orderly_compileCall word id hmode hm).bind fun _ _ hm1 => hm1

lemma orderly_dispatchNumber (word : Text) (hm : m.engine.dict.Stock) :
    Orderly (dispatchNumber word) m := by
  rw [dispatchNumber]
  cases word.readCell with
  | ok n =>
      dsimp only
      rw [Orderly, does_bind, does_get]
      cases hmode : m.engine.mode with
      | execute => exact hm
      | compile => exact (orderly_compileLiteral n hmode hm).bind fun _ _ hm1 => hm1
  | error why =>
      dsimp only
      split_ifs
      · refine ((talks_note _ _).orderly hm).bind fun _ m1 hm1 => ?_
        exact ((talks_report _).orderly hm1).bind fun _ _ hm2 => hm2
      · exact ((talks_report _).orderly hm).bind fun _ _ hm1 => hm1

lemma orderly_read (hm : m.engine.dict.Stock) : Orderly read m := by
  refine (talks_nextWord.orderly hm).bind fun word m1 hm1 => ?_
  cases word with
  | none => exact hm1
  | some word =>
      dsimp only
      rw [dispatch, Orderly, does_bind, does_get]
      cases lookup? m1.engine.dict word with
      | none => exact orderly_dispatchNumber word hm1
      | some found => exact orderly_dispatchFunction word found.1 found.2 hm1

/-- The induction is over the words read. -/
lemma orderly_prompt (hm : m.engine.dict.Stock) : Orderly prompt m := by
  induction m using prompt.induct with
  | case1 m hrunning m1 hread ih =>
      exact (ih ((orderly_read hm).of_ok hread)).congr (prompt_again hrunning hread)
  | case2 m hrunning m1 hread =>
      exact does_of_ok (prompt_ended hrunning hread) ((orderly_read hm).of_ok hread)
  | case3 m hrunning i m1 hread =>
      exact does_of_error (prompt_broken hrunning hread) ((orderly_read hm).of_error hread)
  | case4 m hrunning => exact does_of_ok (prompt_stopped hrunning) hm

/-! ## Instructions -/

/-- A byte that was fetched is the one that the counter stands on. -/
lemma orderly_fetch (hm : m.engine.dict.Stock) :
    Does fetch m (fun code m' => m'.engine.dict.Stock ∧
      (m'.engine.dict.get? m'.engine.fn).bind (codeAt? · m'.engine.pc) = some code) Trouble := by
  rw [fetch, does_bind, does_get]
  dsimp only
  cases hbyte : (m.engine.dict.get? m.engine.fn).bind (codeAt? · (m.engine.pc + 1)) with
  | some code => exact ⟨hm, hbyte⟩
  | none => exact trouble_fault hm (.outOfBounds rfl hbyte)

/-- What comes of an attempt: a fault that is the case is a value. -/
lemma Orderly.attempt {act : Act α} (h : Orderly act m) :
    Does (attempt act) m
      (fun outcome m' => m'.engine.dict.Stock ∧ ∀ what, outcome = .error what →
      what.Holds m'.engine)
      (fun i m' => m'.engine.dict.Stock ∧ ∃ cause, i = .halt cause) := by
  rw [Orderly, Does] at h
  rw [Does, ColonMachine.attempt]
  rcases hact : act m with ⟨a, m1⟩ | ⟨i, m1⟩
  · rw [hact] at h
    exact ⟨h, fun what hwhat => by cases hwhat⟩
  · rw [hact] at h
    obtain ⟨hm1, ⟨cause, rfl⟩ | ⟨what, rfl, hwhat⟩⟩ := h
    · exact ⟨hm1, cause, rfl⟩
    · refine ⟨hm1, fun what' heq => ?_⟩
      cases heq
      exact hwhat

lemma orderly_readQuietly (hm : m.engine.dict.Stock) : Orderly readQuietly m := by
  rw [readQuietly, Orderly]
  simp only [does_bind, does_get, does_modify]
  have hread : Orderly read { m with input := { m.input with prompting := false } } :=
    orderly_read hm
  refine hread.attempt.imp (fun outcome m1 hm1 => ?_) fun i m1 hi => ⟨hi.1, Or.inl hi.2⟩
  cases outcome with
  | ok more => exact hm1.1
  | error what => exact trouble_fault hm1.1 (hm1.2 what rfl)

lemma orderly_execute (op : Opcode) (hm : m.engine.dict.Stock) : Orderly (execute op) m := by
  cases op with
  | call =>
      refine orderly_bind.mpr ((orderly_fetch hm).imp (fun code m1 hm1 => ?_) fun _ _ hi => hi)
      exact orderly_call _ hm1.1
  | jump => exact orderly_bind.mpr ((orderly_fetch hm).imp (fun _ _ hm1 => hm1.1) fun _ _ hi => hi)
  | prompt => exact orderly_prompt hm
  | push => exact orderly_bind.mpr ((orderly_fetch hm).imp (fun _ _ hm1 => hm1.1) fun _ _ hi => hi)
  | read => exact orderly_readQuietly hm
  | ret => exact orderly_ret hm

/-- **The step lemma.**  From any machine with a stock dictionary, an instruction completes, or
faults for a reason, or halts. -/
lemma orderly_step (hm : m.engine.dict.Stock) : Orderly step m := by
  refine orderly_bind.mpr ((orderly_fetch hm).imp (fun code m1 hm1 => ?_) fun _ _ hi => hi)
  refine orderly_bind.mpr ((talks_note _ _ m1).imp (fun _ m2 hm2 => ?_) fun i m2 hi => ?_)
  · obtain ⟨hstock, hbyte⟩ := hm1
    rw [← hm2.1] at hstock hbyte
    cases hop : Opcode.ofCode? code with
    | some op => exact orderly_execute op hstock
    | none => exact trouble_fault hstock (.badOpcode hbyte hop)
  · exact ⟨by rw [hi.2]; exact hm1.1, Or.inl hi.1⟩

/-! ## After a fault -/

/-- Handling the fault leaves the machine before the top level loop, without any call.  If the code
of the loop is there, the next instruction is its prompt.  Only a failure of the output gets in the
way. -/
def Restarts (what : Fault) (m : Machine) : Prop :=
  Does (recover what) m
    (fun _ m' => m'.engine.control = ⟨bootId, -1, []⟩ ∧ m'.engine.dict = m.engine.dict ∧
      ∀ f, m.engine.dict.get? bootId = some f → f.code = Dictionary.bootCode →
        ∃ m'', Becomes m' { m'.engine with pc := 0 } m'' ∧ m''.engine.control = onPrompt ∧
          step m' = prompt m'')
    (fun i m' => m'.engine = m.engine ∧ ∃ failure, i = .halt (some failure) ∧
    Told m (some failure) m')

lemma engine_recover (what : Fault) (m : Machine) :
    Does (recover what) m
      (fun _ m' => m'.engine = { m.engine with
        frames := [], fn := bootId, pc := -1
        mode := if m.engine.defining.isNone then .execute else m.engine.mode })
      (fun i m' => (∃ cause, i = .halt cause) ∧ m'.engine = m.engine) := by
  rw [recover, does_bind]
  refine (talks_note _ _ m).imp (fun _ m1 hm1 => ?_) fun _ _ hi => hi
  rw [does_bind]
  refine (talks_report _ m1).imp (fun _ m2 hm2 => ?_) fun _ _ hi => ⟨hi.1, hi.2.trans hm1.1⟩
  simp only [does_modifyEngine, hm2.1, hm1.1]

lemma BrokenOff.told {cause : Option Failure} (h : BrokenOff m (.halt cause) m') :
    ∃ failure, cause = some failure ∧ Told m (some failure) m' := by
  cases h with
  | halt h => exact ⟨_, rfl, h⟩
  | other hi h => exact absurd rfl (hi cause)

lemma restarts (what : Fault) (m : Machine) : Restarts what m := by
  rw [Restarts]
  rcases hrecover : recover what m with ⟨_, m1⟩ | ⟨i, m1⟩
  · have hengine := (engine_recover what m).of_ok hrecover
    refine does_of_ok hrecover ⟨by rw [hengine]; rfl, by rw [hengine], fun f hget hcode => ?_⟩
    have hop : (m1.engine.dict.get? m1.engine.fn).bind (codeAt? · (m1.engine.pc + 1))
        = some Opcode.prompt.code := by
      have hfirst : codeAt? f 0 = some Opcode.prompt.code := by
        change f.code[0]? = _
        rw [hcode]
        rfl
      rw [hengine]
      simp only [hget, Option.bind_some]
      exact hfirst
    obtain ⟨m2, hm2, hstep⟩ := step_of_opcode hop
    have hpc : m1.engine.pc + 1 = 0 := by rw [hengine]; rfl
    rw [hpc] at hm2
    exact ⟨m2, hm2, by rw [hm2.engine, hengine]; rfl, hstep⟩
  · obtain ⟨⟨cause, rfl⟩, hengine⟩ := (engine_recover what m).of_error hrecover
    obtain ⟨failure, rfl, htold⟩ := (((composed_recover what).recounted m).of_error hrecover).told
    exact does_of_error hrecover ⟨hengine, failure, rfl, htold⟩

/-! ## Runs -/

lemma orderly_haltIf (hm : m.engine.dict.Stock) (cause : Option Failure) (context : Context) :
    Does (haltIf cause >>= fun _ => pure context) m (fun _ m' => m'.engine.dict.Stock)
      (fun i _ => ∃ cause, i = .halt cause) := by
  rw [does_bind]
  refine (talks_haltIf cause m).imp (fun _ m1 hm1 => ?_) fun _ _ hi => hi.1
  rw [does_pure, hm1.1]
  exact hm

lemma orderly_tick (hm : m.engine.dict.Stock) (context : Context) :
    Does (tick context) m (fun _ m' => m'.engine.dict.Stock)
      (fun i _ => ∃ cause, i = .halt cause) := by
  rw [tick, does_bind]
  refine (orderly_step hm).attempt.imp (fun outcome m1 hm1 => ?_) fun _ _ hi => hi.2
  cases outcome with
  | ok _ => exact orderly_haltIf hm1.1 _ _
  | error what =>
      rw [does_bind]
      refine (restarts what m1).imp (fun _ m2 hm2 => ?_) fun _ _ hi => ?_
      · refine orderly_haltIf ?_ _ _
        rw [hm2.2.1]
        exact hm1.1
      · obtain ⟨-, failure, rfl, -⟩ := hi
        exact ⟨_, rfl⟩

/-- **The run lemma.**  However many instructions are executed, nothing but a halt breaks them
off. -/
lemma orderly_exec (hm : m.engine.dict.Stock) (fuel : ℕ) (context : Context) :
    Does (exec fuel context) m (fun _ m' => m'.engine.dict.Stock)
      (fun i _ => ∃ cause, i = .halt cause) := by
  induction fuel generalizing m context with
  | zero => exact hm
  | succ fuel ih =>
      by_cases hrunning : m.engine.running = true
      · cases htick : tick context m with
        | ok context' m1 =>
            exact (ih ((orderly_tick hm context).of_ok htick) context').congr
              (exec_tick hrunning htick fuel)
        | error i m1 =>
            exact does_of_error (exec_broken hrunning htick fuel)
              ((orderly_tick hm context).of_error htick)
      · exact does_of_ok (exec_stopped (by simpa using hrunning) _) hm

/-- **Any machine is safe to step**, if its natives are primitives.  Nothing is accessed out of
range; the instruction completes, or halts the session for a failure of the world outside, or raises
a fault that is the case and after which the top level loop is restarted.  And so on, through any
number of instructions. -/
theorem step_of_stock (hm : m.engine.dict.Stock) :
    stepAt m = safely step m ∧
    Does step m (fun _ m' => m'.engine.dict.Stock)
      (fun i m' => m'.engine.dict.Stock ∧
        ((∃ failure, i = .halt (some failure) ∧ Told m (some failure) m') ∨
          ∃ what, i = .fault what ∧ what.Holds m'.engine ∧ Restarts what m')) ∧
    ∀ fuel context, Does (exec fuel context) m (fun _ m' => m'.engine.dict.Stock)
      (fun i _ => ∃ cause, i = .halt cause) := by
  refine ⟨sure_step m, ?_, orderly_exec hm⟩
  rcases hstep : step m with ⟨_, m1⟩ | ⟨i, m1⟩
  · exact does_of_ok hstep ((orderly_step hm).of_ok hstep)
  · obtain ⟨hm1, htrouble⟩ := (orderly_step hm).of_error hstep
    refine does_of_error hstep ⟨hm1, ?_⟩
    rcases htrouble with ⟨cause, rfl⟩ | ⟨what, rfl, hwhat⟩
    · obtain ⟨failure, rfl, htold⟩ := ((composed_step.recounted m).of_error hstep).told
      exact Or.inl ⟨failure, rfl, htold⟩
    · exact Or.inr ⟨what, rfl, hwhat, restarts what m1⟩

/-- A session in the middle of nowhere: the counter is the largest there is, the only frame leads to
no function, and words would be compiled into a definition that does not exist. -/
def stray : Machine where
  engine :=
    { dict := (Dictionary.initial.add (utf8 "x")).emit 16 [7, -1]
      frames := [⟨-3, 99⟩]
      fn := 16
      pc := 9223372036854775807
      mode := .compile
      defining := some 200 }

theorem step_of_stock_stray :
    stray.engine.dict.Stock ∧ stepAt stray = safely step stray ∧
      ∃ m1 m2 m3, step stray = .error (.fault (.outOfBounds 16 (-9223372036854775808))) m1 ∧
        recover (.outOfBounds 16 (-9223372036854775808)) m1 = .ok () m2 ∧ step m2 = prompt m3 ∧
        m3.engine.control = onPrompt := by
  have hstock : stray.engine.dict.Stock := (Dictionary.stock_initial.add _).emit _ _
  obtain ⟨hsure, hdoes, -⟩ := step_of_stock hstock
  refine ⟨hstock, hsure, ?_⟩
  obtain ⟨m1, m2, hstep, hdict, hrecover⟩ :
      ∃ m1 m2, step stray = .error (.fault (.outOfBounds 16 (-9223372036854775808))) m1 ∧
        m1.engine.dict = stray.engine.dict ∧
        recover (.outOfBounds 16 (-9223372036854775808)) m1 = .ok () m2 := ⟨_, _, rfl, rfl, rfl⟩
  obtain ⟨-, ⟨failure, hhalt, -⟩ | ⟨what, hfault, -, hrestarts⟩⟩ := hdoes.of_error hstep
  · cases hhalt
  · cases hfault
    obtain ⟨-, -, hnext⟩ := hrestarts.of_ok hrecover
    obtain ⟨m3, -, hat, hprompt⟩ := hnext bootFunction (by rw [hdict]; rfl) rfl
    exact ⟨m1, m2, m3, hstep, hrecover, hprompt, hat⟩

end Machine

end ColonMachine
