import ColonMachine.Proofs.Stepping

/-!
# Which faults there are

A program can make three mistakes: take more from the data stack than there is, divide by zero, and
call too deep.  `step_fault_cases` says that these are the only faults that ever come up, whatever
was typed: the counter never leaves the code, every byte it meets as an opcode is one, every call
goes to a function, every return has a call to return from, and words are compiled only into a
definition.

Everything is read off the invariant.  `isSound_step` is its step lemma: from a sound machine, an
instruction leaves a sound machine, or faults in one of the three ways and leaves a sound machine,
or halts.  `isSound_exec` is the run lemma; runs begin with a machine that is `Fresh`, as all new
ones are (`fresh_create`).
-/

namespace ColonMachine

/-- The mistakes a program can make. -/
def Fault.IsOrdinary (what : Fault) : Prop :=
  what = .stackUnderflow ∨ what = .divisionByZero ∨ what = .returnOverflow

lemma Fault.IsPrimitive.isOrdinary {what : Fault} (h : what.IsPrimitive) : what.IsOrdinary := by
  rcases h with h | h
  · exact Or.inl h
  · exact Or.inr (Or.inl h)

lemma Effect.control {e e' : Engine} {p : Primitive} (h : Effect e p e') :
    e'.control = e.control := by
  cases h <;> rfl

lemma Effect.limit {e e' : Engine} {p : Primitive} (h : Effect e p e') : e'.limit = e.limit := by
  cases h <;> rfl

namespace Machine

variable {m m' : Machine} {id : FuncId} {f : Function}

/-- How an action is interrupted that keeps the invariant: by a halt, or by an ordinary fault which
leaves a sound machine. -/
def Contained (i : Interrupt) (m' : Machine) : Prop :=
  (∃ cause, i = .halt cause) ∨ ∃ what, i = .fault what ∧ what.IsOrdinary ∧ m'.IsSound

lemma Becomes.isSound {e : Engine} (h : Becomes m e m') (hm : m.IsSound) (he : Sound e) :
    m'.IsSound :=
  ⟨by rw [h.engine]; exact he, by rw [h.input]; exact hm.input⟩

lemma Talks.isSound {α : Type} {act : Act α} {a : α} (h : Talks act) (hm : m.IsSound)
    (hok : act m = .ok a m') : m'.IsSound := by
  obtain ⟨hengine, htidy⟩ := (h m).of_ok hok
  exact ⟨by rw [hengine]; exact hm.engine, htidy hm.input⟩

/-! ## Calls -/

/-- What calling a function comes to: without code it has the effect of a primitive, and with code
it is entered.  A fault leaves the machine as it was. -/
lemma call_effect (htidy : m.input.Tidy) (hget : m.engine.dict.get? id = some f)
    (hcall : Callable m.engine.dict id f) :
    Does (call id) m
      (fun _ m' =>
        (∃ p, Effect m.engine p m'.engine ∧ m'.input.Tidy ∧ (p = .endDefine → id = endDefineId)) ∨
          f.code ≠ [] ∧ ∃ body, m.engine.dict.Finished id body ∧ ¬ m.engine.Full ∧
            Becomes m (m.engine.entered id) m')
      (fun i m' => (∃ cause, i = .halt cause) ∨ ∃ what, i = .fault what ∧ what.IsOrdinary ∧
      m' = m) := by
  cases hcall with
  | primitive p hcode hnative hend =>
      refine ((primitive_effect p m htidy).congr (call_primitive hget hcode hnative)).imp ?_ ?_
      · rintro - m' ⟨heffect, htidy'⟩
        exact Or.inl ⟨p, heffect, htidy', hend⟩
      · rintro i m' (hhalt | ⟨what, rfl, hwhat, rfl⟩)
        · exact Or.inl hhalt
        · exact Or.inr ⟨what, rfl, hwhat.isOrdinary, rfl⟩
  | empty hcode hnative =>
      exact does_of_ok (call_empty hget hcode hnative)
        (Or.inl ⟨.print, Effect.refl _ _, htidy, nofun⟩)
  | word body _ hbody =>
      by_cases hfull : m.engine.Full
      · exact does_of_error (call_full hbody hfull) (Or.inr ⟨_, rfl, Or.inr (Or.inr rfl), rfl⟩)
      · obtain ⟨m', hm', hok⟩ := call_word hbody hfull
        refine does_of_ok hok (Or.inr ⟨?_, body, hbody, hfull, hm'⟩)
        obtain ⟨-, g, hg, hcode⟩ := hbody
        rw [hget] at hg
        cases hg
        simp [hcode]

/-- Calling a function keeps the invariant.  If the function has no code, nothing is entered. -/
lemma isSound_call (hm : m.IsSound) (hopen : m.engine.Untouched)
    (hget : m.engine.dict.get? id = some f) (hcall : Callable m.engine.dict id f)
    (henter : ∀ body, m.engine.dict.Finished id body →
      Active m.engine.dict id (-1) (⟨m.engine.fn, m.engine.pc⟩ :: m.engine.frames)) :
    Does (call id) m
      (fun _ m' => m'.IsSound ∧ (f.code = [] → m'.engine.control = m.engine.control))
      Contained := by
  refine (call_effect hm.input hget hcall).imp ?_ ?_
  · rintro - m' (⟨p, heffect, htidy, -⟩ | ⟨hcode, body, hbody, hfull, hm'⟩)
    · exact ⟨⟨hm.engine.effect (Or.inl hopen) heffect, htidy⟩, fun _ => heffect.control⟩
    · refine ⟨hm'.isSound hm ?_, fun hempty => absurd hempty hcode⟩
      refine hm.engine.moved (Or.inr hopen) (henter body hbody) fun hlimit => ?_
      have : ¬ m.engine.limit ≤ m.engine.frames.length := fun hle => hfull ⟨hlimit, hle⟩
      simp only [List.length_cons]
      omega
  · rintro i m' (hhalt | ⟨what, rfl, hwhat, rfl⟩)
    · exact Or.inl hhalt
    · exact Or.inr ⟨what, rfl, hwhat, hm⟩

/-! ## A word at the top level -/

/-- What dispatching comes to: a sound machine, which still is in the prompt instruction if the line
may be read on. -/
def Dispatched (more : Bool) (m' : Machine) : Prop :=
  m'.IsSound ∧ (more = true → m'.engine.control = onPrompt)

lemma isSound_report {m1 : Machine} (message : Text) (hm : m.IsSound)
    (hat : m.engine.control = onPrompt) (hm1 : Becomes m m.engine m1) :
    Does (report message >>= fun _ => pure true) m1 Dispatched Contained := by
  rw [does_bind]
  refine (talks_report message m1).imp ?_ fun i m' hi => Or.inl hi.1
  rintro - m2 ⟨hengine, htidy⟩
  rw [hm1.engine] at hengine
  rw [hm1.input] at htidy
  exact ⟨⟨by rw [hengine]; exact hm.engine, htidy hm.input⟩, fun _ => by rw [hengine, hat]⟩

lemma isSound_emitted {m1 : Machine} {target : FuncId} {i : Instr} (hm : m.IsSound)
    (hat : m.engine.control = onPrompt) (hdefining : m.engine.defining = some target)
    (hbelow : Instr.Below target [i])
    (hm1 : Becomes m { m.engine with dict := m.engine.dict.emit target i.bytes } m1) :
    Dispatched true m1 := by
  have hfn : m.engine.fn = bootId := congrArg Control.fn hat
  refine ⟨hm1.isSound hm (hm.engine.emitted hfn hdefining hbelow), fun _ => ?_⟩
  rw [hm1.engine]
  exact hat

lemma isSound_dispatch {word : Text} (hm : m.IsSound) (hat : m.engine.control = onPrompt)
    (hword : word.IsWord) : Does (dispatch word) m Dispatched Contained := by
  cases dispatching hm.engine hword with
  | @close m1 id f hlookup himmediate hcode hnative hm1 hdispatch =>
      -- the open definition may have code, but it is closed and no other one is opened
      have htidy : m1.input.Tidy := by rw [hm1.input]; exact hm.input
      have heffect := primitive_effect .endDefine m1 htidy
      rw [hm1.engine] at heffect
      refine Does.congr ?_ hdispatch
      rw [does_bind]
      refine heffect.imp ?_ ?_
      · rintro - m2 ⟨heffect, htidy2⟩
        exact ⟨⟨hm.engine.effect (Or.inr rfl) heffect, htidy2⟩, fun _ => heffect.control.trans hat⟩
      · rintro i m2 (hhalt | ⟨what, rfl, hwhat, rfl⟩)
        · exact Or.inl hhalt
        · exact Or.inr ⟨what, rfl, hwhat.isOrdinary, hm1.isSound hm hm.engine⟩
  | @run id f hlookup himmediate hmode hcall hdispatch =>
      have hopen := hm.engine.untouched_of_execute hmode
      have hcontrol : m.engine.fn = bootId ∧ m.engine.pc = 0 ∧ m.engine.frames = [] := by
        simpa [Engine.control, onPrompt] using hat
      refine Does.congr ?_ hdispatch
      rw [does_bind]
      refine (isSound_call hm hopen (get?_of_lookup? hlookup).1 hcall ?_).imp ?_ fun i m' hi => hi
      · intro body hbody
        rw [hcontrol.1, hcontrol.2.1, hcontrol.2.2]
        exact .called (Spot.start hbody)
      · rintro - m' ⟨hsound, hnative⟩
        refine ⟨hsound, fun hmore => ?_⟩
        rw [hnative (by simpa [Function.isNative] using hmore), hat]
  | compile _ _ _ hdefining _ hbelow hm1 hdispatch =>
      exact does_of_ok hdispatch (isSound_emitted hm hat hdefining hbelow hm1)
  | refuse _ _ _ _ hdispatch =>
      exact (isSound_report _ hm hat (becomes_engine m m.engine)).congr hdispatch
  | number _ _ _ hdispatch =>
      exact does_of_ok hdispatch ⟨⟨hm.engine.stack _, hm.input⟩, fun _ => hat⟩
  | literal _ _ _ hdefining hm1 hdispatch =>
      refine does_of_ok hdispatch (isSound_emitted hm hat hdefining ?_ hm1)
      intro callee hmem
      cases List.mem_singleton.mp hmem
  | unknown _ _ hm1 hdispatch => exact (isSound_report _ hm hat hm1).congr hdispatch

lemma isSound_read (hm : m.IsSound) (hat : m.engine.control = onPrompt) :
    Does read m Dispatched Contained := by
  rw [read, does_bind]
  cases hnext : nextWord m with
  | error i m1 =>
      exact does_of_error hnext (Or.inl ((talks_nextWord m).of_error hnext).1)
  | ok word m1 =>
      have hengine := ((talks_nextWord m).of_ok hnext).1
      have hm1 := talks_nextWord.isSound hm hnext
      refine does_of_ok hnext ?_
      cases word with
      | none => exact ⟨hm1, fun h => by cases h⟩
      | some word =>
          exact isSound_dispatch hm1 (by rw [hengine, hat]) (isWord_of_nextWord hm.input hnext)

/-- A line of words keeps the invariant: the induction is over the words read. -/
lemma isSound_prompt (hm : m.IsSound) (hat : m.engine.control = onPrompt) :
    Does prompt m (fun _ m' => m'.IsSound) Contained := by
  induction m using prompt.induct with
  | case1 m hrunning m1 hread ih =>
      obtain ⟨hm1, hat1⟩ := (isSound_read hm hat).of_ok hread
      exact (ih hm1 (hat1 rfl)).congr (prompt_again hrunning hread)
  | case2 m hrunning m1 hread =>
      exact does_of_ok (prompt_ended hrunning hread) ((isSound_read hm hat).of_ok hread).1
  | case3 m hrunning i m1 hread =>
      exact does_of_error (prompt_broken hrunning hread) ((isSound_read hm hat).of_error hread)
  | case4 m hrunning =>
      exact does_of_ok (prompt_stopped hrunning) hm

/-! ## One instruction, and many -/

/-- **The step lemma.**  From a sound machine, an instruction leaves a sound machine, or faults in
an ordinary way, or halts the session. -/
lemma isSound_step (hm : m.IsSound) : Does step m (fun _ m' => m'.IsSound) Contained := by
  cases stepping hm.engine with
  | line hfn hpc hframes hm1 hat hstep =>
      exact (isSound_prompt (hm1.isSound hm (hm.engine.top hfn hframes (Or.inr rfl)))
        hat).congr hstep
  | jump hfn hpc hframes hm1 hstep =>
      exact does_of_ok hstep (hm1.isSound hm (hm.engine.top hfn hframes (Or.inl rfl)))
  | back hspot hframes hback hm1 hstep =>
      refine does_of_ok hstep (hm1.isSound hm ?_)
      have hopen := hm.engine.untouched_of_word hspot.finished.ne_boot
      refine hm.engine.moved (Or.inr hopen) hback fun hlimit => ?_
      have := hm.engine.depth hlimit
      rw [hframes, List.length_cons] at this
      omega
  | push hspot hm1 hstep =>
      have hopen := hm.engine.untouched_of_word hspot.finished.ne_boot
      have hmoved := hm.engine.moved (Or.inr hopen) (hm.engine.active.move hspot.next)
        hm.engine.depth
      exact does_of_ok hstep (hm1.isSound hm (hmoved.stack _))
  | @call m1 past rest callee f hspot hget hcall _ hm1 hstep =>
      -- a word is running, so the open definition has no code
      have hopen := hm.engine.untouched_of_word hspot.finished.ne_boot
      have hactive := hm.engine.active.move hspot.next
      have hsound := hm1.isSound hm (hm.engine.moved (Or.inr hopen) hactive hm.engine.depth)
      have hopen1 : m1.engine.Untouched := by rw [hm1.engine]; exact hopen
      have hdict : m1.engine.dict = m.engine.dict := by rw [hm1.engine]
      rw [← hdict] at hget hcall
      refine ((isSound_call hsound hopen1 hget hcall ?_).congr hstep).imp (fun _ m' hm' => hm'.1)
        fun i m' hi => hi
      intro body hbody
      rw [hm1.engine] at hbody ⊢
      exact hactive.enter hspot.next hbody

/-- Handling a fault leaves a sound machine, if it does not halt the session. -/
lemma isSound_recover (hm : m.IsSound) (what : Fault) :
    Does (recover what) m (fun _ m' => m'.IsSound) (fun i _ => ∃ cause, i = .halt cause) := by
  rw [recover, does_bind]
  refine (talks_note _ _ m).imp ?_ fun i m' hi => hi.1
  rintro - m1 ⟨hengine1, htidy1⟩
  rw [does_bind]
  refine (talks_report _ m1).imp ?_ fun i m' hi => hi.1
  rintro - m2 ⟨hengine2, htidy2⟩
  refine ⟨?_, htidy2 (htidy1 hm.input)⟩
  simp only [hengine2, hengine1]
  exact hm.engine.recovered

lemma isSound_haltIf (hm : m.IsSound) (cause : Option Failure) (context : Context) :
    Does (haltIf cause >>= fun _ => pure context) m (fun _ m' => m'.IsSound)
      (fun i _ => ∃ cause, i = .halt cause) := by
  rw [does_bind]
  refine (talks_haltIf cause m).imp ?_ fun i m' hi => hi.1
  rintro - m2 ⟨hengine, htidy⟩
  exact ⟨by rw [hengine]; exact hm.engine, htidy hm.input⟩

lemma isSound_tick (hm : m.IsSound) (context : Context) :
    Does (tick context) m (fun _ m' => m'.IsSound) (fun i _ => ∃ cause, i = .halt cause) := by
  rw [tick, does_bind]
  cases hstep : step m with
  | ok _ m1 =>
      have hattempt : attempt step m = .ok (.ok ()) m1 := by rw [attempt, hstep]
      exact does_of_ok hattempt (isSound_haltIf ((isSound_step hm).of_ok hstep) _ _)
  | error i m1 =>
      rcases (isSound_step hm).of_error hstep with ⟨cause, rfl⟩ | ⟨what, rfl, -, hm1⟩
      · have hattempt : attempt step m = .error (.halt cause) m1 := by rw [attempt, hstep]
        exact does_of_error hattempt ⟨cause, rfl⟩
      · have hattempt : attempt step m = .ok (.error what) m1 := by rw [attempt, hstep]
        refine does_of_ok hattempt ?_
        rw [does_bind]
        refine (isSound_recover hm1 what).imp (fun _ m2 hm2 => ?_) fun i m' hi => hi
        exact isSound_haltIf hm2 _ _

/-- **The run lemma.**  However many instructions are executed, the machine stays sound. -/
lemma isSound_exec (hm : m.IsSound) (fuel : ℕ) (context : Context) :
    Does (exec fuel context) m (fun _ m' => m'.IsSound)
      (fun i _ => ∃ cause, i = .halt cause) := by
  induction fuel generalizing m context with
  | zero => exact hm
  | succ fuel ih =>
      by_cases hrunning : m.engine.running = true
      · cases htick : tick context m with
        | ok context' m1 =>
            exact (ih ((isSound_tick hm context).of_ok htick) context').congr
              (exec_tick hrunning htick fuel)
        | error i m1 =>
            exact does_of_error (exec_broken hrunning htick fuel)
              ((isSound_tick hm context).of_error htick)
      · exact does_of_ok (exec_stopped (by simpa using hrunning) _) hm

end Machine

/-! ## New machines -/

namespace Setting

variable {P : Machine → Prop}

mutual

lemma apply_keeps (hone : ∀ m setting m', P m → applyOne m setting = .ok m' → P m') :
    ∀ (setting : Setting) {m m' : Machine}, P m → apply m setting = .ok m' → P m'
  | setting, m, m', hm, h => by
      cases setting with
      | group members => exact applyAll_keeps hone members hm (by simpa only [apply] using h)
      | _ => exact hone m _ m' hm (by simpa only [apply] using h)

/-- What every single setting keeps, any number of settings keeps. -/
lemma applyAll_keeps (hone : ∀ m setting m', P m → applyOne m setting = .ok m' → P m') :
    ∀ (settings : List Setting) {m m' : Machine}, P m → applyAll m settings = .ok m' → P m'
  | [], _, _, hm, h => by
      simp only [applyAll] at h
      cases h
      exact hm
  | setting :: others, m, _, hm, h => by
      simp only [applyAll] at h
      cases happly : apply m setting with
      | ok m1 =>
          rw [happly] at h
          exact applyAll_keeps hone others (apply_keeps hone setting hm happly) h
      | error failure =>
          rw [happly] at h
          cases h

end

end Setting

namespace Machine

variable {m m' : Machine}

/-- A machine that has not run yet. -/
structure Fresh (m : Machine) : Prop where
  /-- Settings change nothing of the engine but the limit of the return stack. -/
  engine : m.engine = { initial.engine with limit := m.engine.limit }
  buffer : m.input.buffer = none
  current : m.input.current = none

lemma fresh_applyOne (m : Machine) (setting : Setting) (m' : Machine) (hm : m.Fresh)
    (h : Setting.applyOne m setting = .ok m') : m'.Fresh := by
  obtain ⟨hengine, hbuffer, hcurrent⟩ := hm
  cases setting with
  | written name text =>
      cases text with
      | error failure => cases h
      | ok text => cases h; exact ⟨hengine, hbuffer, hcurrent⟩
  | limit n => cases h; exact ⟨by rw [hengine], hbuffer, hcurrent⟩
  | _ => cases h; exact ⟨hengine, hbuffer, hcurrent⟩

lemma fresh_create {settings : List Setting} (h : create settings = .ok m) : m.Fresh := by
  rw [create_eq_applyAll] at h
  cases happly : Setting.applyAll initial settings with
  | error failure => rw [happly] at h; cases h
  | ok m1 =>
      rw [happly] at h
      cases h
      have hfresh : m1.Fresh :=
        Setting.applyAll_keeps fresh_applyOne settings ⟨rfl, rfl, rfl⟩ happly
      exact ⟨hfresh.engine, hfresh.buffer, hfresh.current⟩

lemma sound_initial (limit : ℤ) : Sound { initial.engine with limit := limit } where
  builtins := List.prefix_refl _
  words := by
    intro id f hid hget
    exact absurd hid (Int.not_le.mpr (Dictionary.bounds_of_get? hget).2)
  names := by
    rw [show initial.engine.dict = Dictionary.initial from rfl]
    decide
  mode := by simp [initial]
  newest := by simp [initial]
  active := .top (Or.inl rfl)
  depth := fun hlimit => Int.le_of_lt hlimit

lemma Fresh.isSound (h : m.Fresh) : m.IsSound :=
  ⟨by rw [h.engine]; exact sound_initial _, Source.tidy_of_buffer_none h.buffer⟩

/-! ## The faults of a run -/

/-- The machine `m` comes up between two instructions of a run of `m₀`. -/
def Reaches (m₀ m : Machine) : Prop :=
  ∃ fuel context stopped, exec fuel context (m₀.indent true) = .ok stopped m

lemma isSound_of_reaches {m₀ : Machine} (hm₀ : m₀.IsSound) (h : m₀.Reaches m) : m.IsSound := by
  obtain ⟨fuel, context, stopped, hexec⟩ := h
  have hindent : (m₀.indent true).IsSound := ⟨hm₀.engine, hm₀.input⟩
  exact (isSound_exec hindent fuel context).of_ok hexec

/-- **The faults of a run.**  Whatever settings a machine is made from and whatever it is given to
read, an instruction of its run that does not complete was interrupted by a halt, or by one of three
faults. -/
theorem step_fault_cases {settings : List Setting} {m₀ : Machine} {i : Interrupt}
    (hnew : create settings = .ok m₀) (hreach : m₀.Reaches m) (hstep : step m = .error i m') :
    (∃ cause, i = .halt cause) ∨ i = .fault .stackUnderflow ∨ i = .fault .divisionByZero ∨
      i = .fault .returnOverflow := by
  have hm := isSound_of_reaches (fresh_create hnew).isSound hreach
  rcases (isSound_step hm).of_error hstep with hhalt | ⟨what, rfl, hwhat, -⟩
  · exact Or.inl hhalt
  · rcases hwhat with rfl | rfl | rfl
    · exact Or.inr (Or.inl rfl)
    · exact Or.inr (Or.inr (Or.inl rfl))
    · exact Or.inr (Or.inr (Or.inr rfl))

theorem step_fault_cases_of_plus :
    ∃ m₀ m', create [.input { name := [], lines := [utf8 "1 +\n"] } none, .limit 1] = .ok m₀ ∧
      m₀.Reaches (m₀.indent true) ∧
      step (m₀.indent true) = .error (.fault .stackUnderflow) m' ∧
      ((∃ cause, Interrupt.fault .stackUnderflow = .halt cause) ∨
        Interrupt.fault .stackUnderflow = .fault .stackUnderflow ∨
        Interrupt.fault .stackUnderflow = .fault .divisionByZero ∨
        Interrupt.fault .stackUnderflow = .fault .returnOverflow) := by
  obtain ⟨m₀, hnew⟩ : ∃ m₀, create [.input { name := [], lines := [utf8 "1 +\n"] } none,
      .limit 1] = .ok m₀ := ⟨_, rfl⟩
  have hreach : m₀.Reaches (m₀.indent true) := ⟨0, .background, _, rfl⟩
  have hstep : ∃ m', step (m₀.indent true) = .error (.fault .stackUnderflow) m' := by
    cases hnew
    exact ⟨_, (prompt_again rfl rfl).trans (prompt_broken rfl rfl)⟩
  obtain ⟨m', hm'⟩ := hstep
  exact ⟨_, m', hnew, hreach, hm', step_fault_cases hnew hreach hm'⟩

end Machine

end ColonMachine
