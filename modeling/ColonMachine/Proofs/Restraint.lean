import ColonMachine.Proofs.Composition

/-!
# What words and natives leave alone

An action is **restrained** if, however it ends, it leaves a view of the machine as it was, and
faults over no code: a fault of decoding, for a byte that is no opcode or a counter outside of the
code, is raised where code is fetched and nowhere else.

There are three views, each coarser than the one before.

* What talks leaves the engine and the setting for prompts (`still`).
* A native leaves the place in the code, the frames, and the setting for prompts (`standing`).
* A word, and a whole line of words, leaves at least the setting for prompts (`restrained_prompt`).

Nothing is asked of the dictionary: any native may be called under any id.
-/

namespace ColonMachine

/-! ## The source -/

namespace Source

variable {ε : Type} (hooks : Hooks ε)

lemma prompting_readOn {src : Source} (stream : Stream) (env : ε)
    (h : ∀ env, (readQueued hooks src.queue src env).2.1.prompting = src.prompting) :
    (src.readOn hooks stream env).2.1.prompting = src.prompting := by
  rw [readOn, attempt]
  rcases src.announce hooks env with ⟨_ | failure, env1⟩
  · cases stream.lines with
    | cons line rest => rfl
    | nil =>
        cases stream.failure with
        | none => exact h env1
        | some failure => rfl
  · rfl

lemma prompting_readQueued (queue : List Stream) (src : Source) (env : ε) :
    (readQueued hooks queue src env).2.1.prompting = src.prompting := by
  induction queue generalizing src env with
  | nil => rfl
  | cons stream queue ih =>
      rw [readQueued_cons]
      exact prompting_readOn hooks stream env (ih (src.begun stream queue))

lemma prompting_readLine (src : Source) (env : ε) :
    (src.readLine hooks env).2.1.prompting = src.prompting := by
  cases hcurrent : src.current with
  | none =>
      rw [readLine_of_none hcurrent]
      exact prompting_readQueued hooks src.queue src env
  | some stream =>
      rw [readLine_of_some hcurrent]
      exact prompting_readOn hooks stream env (prompting_readQueued hooks src.queue src)

@[simp] lemma prompting_popWord (src : Source) : src.popWord.2.prompting = src.prompting := by
  rw [popWord]
  split <;> rfl

lemma prompting_nextWord (src : Source) (env : ε) :
    (src.nextWord hooks env).2.1.prompting = src.prompting := by
  have hline := prompting_readLine hooks src env
  rw [nextWord]
  split_ifs
  · generalize src.readLine hooks env = read at hline
    obtain ⟨_ | failure, src1, env1⟩ := read
    · exact (prompting_popWord src1).trans hline
    · exact hline
  · exact prompting_popWord src

end Source

/-! ## Restraint -/

/-- The fault is about a byte of code, or about the lack of one. -/
def Fault.OfDecoding : Fault → Prop
  | badOpcode _ _ | outOfBounds _ _ => True
  | _ => False

namespace Machine

variable {α β κ : Type} {view : Machine → κ} {act : Act α}

/-- However it ends, the action leaves the view as it was, and it raises no fault of decoding. -/
def Restrained (view : Machine → κ) (act : Act α) : Prop :=
  ∀ m, Does act m (fun _ m' => view m' = view m)
    (fun i m' => view m' = view m ∧ ∀ what, i = .fault what → ¬ what.OfDecoding)

namespace Restrained

lemma bind {next : α → Act β} (h : Restrained view act) (hnext : ∀ a, Restrained view (next a)) :
    Restrained view (act >>= next) := by
  intro m
  rw [does_bind]
  refine (h m).imp (fun a m1 h1 => ?_) fun i m' hi => hi
  exact (hnext a m1).imp (fun b m' h' => h'.trans h1) fun i m' hi => ⟨hi.1.trans h1, hi.2⟩

lemma look {next : Machine → Act α} (h : ∀ m, Restrained view (next m)) :
    Restrained view ((get : Act Machine) >>= next) := fun m => h m m

/-- A coarser view is left alone as well. -/
lemma coarsen {κ' : Type} {view' : Machine → κ'} (h : Restrained view act)
    (hview : ∀ {m m'}, view m' = view m → view' m' = view' m) : Restrained view' act :=
  fun m => (h m).imp (fun _ _ h' => hview h') fun _ _ hi => ⟨hview hi.1, hi.2⟩

/-- The induction is over what is left to be read. -/
lemma loop {body : Act (Option α)} (h : Restrained view body) (hrepeats : Repeats body act) :
    Restrained view act := by
  intro m
  induction hpending : m.pending using Nat.strongRecOn generalizing m with
  | _ n ih =>
    rcases hbody : body m with ⟨_ | a, m1⟩ | ⟨i, m1⟩
    · obtain ⟨hagain, hless⟩ := hrepeats.again hbody
      have h1 := (h m).of_ok hbody
      refine ((ih _ (hpending ▸ hless) m1 rfl).congr hagain).imp (fun a m' h' => ?_)
        fun i m' hi => ?_
      · exact h'.trans h1
      · exact ⟨hi.1.trans h1, hi.2⟩
    · exact does_of_ok (hrepeats.done hbody) ((h m).of_ok hbody)
    · exact does_of_error (hrepeats.broken hbody) ((h m).of_error hbody)

/-- Whatever is left, the view of it is as it was. -/
lemma machine (h : Restrained view act) (m : Machine) : view (Result.machine (act m)) = view m := by
  rcases hact : act m with ⟨a, m'⟩ | ⟨i, m'⟩
  · exact (h m).of_ok hact
  · exact ((h m).of_error hact).1

lemma not_ofDecoding {m m' : Machine} {what : Fault} (h : Restrained view act)
    (hact : act m = .error (.fault what) m') : ¬ what.OfDecoding :=
  ((h m).of_error hact).2 what rfl

end Restrained

lemma restrained_pure (a : α) : Restrained view (pure a : Act α) := fun _ => rfl

lemma restrained_modify {f : Machine → Machine} (h : ∀ m, view (f m) = view m) :
    Restrained view (modify f : Act Unit) := h

lemma restrained_throw {i : Interrupt} (hi : ∀ what, i = .fault what → ¬ what.OfDecoding) :
    Restrained view (throw i : Act α) := fun _ => ⟨rfl, hi⟩

lemma restrained_raise {what : Fault} (h : ¬ what.OfDecoding) :
    Restrained view (raise what : Act α) := by
  refine restrained_throw ?_
  rintro _ ⟨⟩
  exact h

/-! ## Talking -/

/-- What talking leaves alone. -/
def still (m : Machine) : Engine × Bool := (m.engine, m.input.prompting)

lemma restrained_note (mark : Text) (message : Machine → Text) :
    Restrained still (note mark message) :=
  restrained_modify fun m => by rw [still, engine_noted, input_noted, still]

lemma restrained_speak (act : Console → Option Failure × Console) : Restrained still (speak act) :=
  fun _ => rfl

lemma restrained_halt (cause : Option Failure) : Restrained still (halt cause : Act α) := by
  refine (restrained_speak _).bind fun late => (restrained_note _ _).bind fun _ => ?_
  exact restrained_throw (by simp)

lemma restrained_haltIf (failure? : Option Failure) : Restrained still (haltIf failure?) := by
  cases failure? with
  | none => exact restrained_pure ()
  | some failure => exact restrained_halt _

lemma restrained_write (t : Text) : Restrained still (write t) :=
  (restrained_speak _).bind restrained_haltIf

lemma restrained_print (t : Text) : Restrained still (print t) :=
  (restrained_speak _).bind restrained_haltIf

lemma restrained_report (message : Text) : Restrained still (report message) := by
  refine (restrained_note _ _).bind fun _ => .look fun _ => ?_
  refine (restrained_write _).bind fun _ => (restrained_write _).bind fun _ => ?_
  exact .bind (restrained_modify fun _ => rfl) fun _ => restrained_modify fun _ => rfl

lemma restrained_nextWord : Restrained still nextWord := by
  have hpull : Restrained still pull := fun m =>
    Prod.ext rfl (Source.prompting_nextWord (Console.hooks m.engine.mode) m.input m.console)
  refine hpull.bind fun word => ?_
  rcases word with failure | _ | word
  · exact restrained_halt _
  · exact restrained_pure _
  · exact (restrained_note _ _).bind fun _ => restrained_pure _

lemma restrained_nextName : Restrained still nextName := restrained_nextWord.loop repeats_nextName

lemma restrained_seeName (name : Text) : Restrained still (seeName name) := by
  refine .look fun m => ?_
  dsimp only
  split
  · exact restrained_report _
  · exact restrained_write _

lemma restrained_see : Restrained still see := by
  refine restrained_nextWord.bind fun word => ?_
  cases word with
  | none => exact restrained_report _
  | some name => exact restrained_seeName name

/-! ## Natives -/

/-- What a native leaves alone. -/
def standing (m : Machine) : Control × Bool := (m.engine.control, m.input.prompting)

/-- What talks leaves alone what a native leaves alone. -/
lemma Restrained.standing (h : Restrained still act) : Restrained Machine.standing act :=
  h.coarsen fun h' => by
    obtain ⟨hengine, hprompting⟩ := Prod.ext_iff.mp h'
    exact Prod.ext (congrArg Engine.control hengine) hprompting

/-- A change to the engine that keeps its place. -/
lemma restrained_modifyEngine {f : Engine → Engine} (h : ∀ e, (f e).control = e.control) :
    Restrained standing (modifyEngine f) :=
  restrained_modify fun m => Prod.ext (h m.engine) rfl

lemma restrained_of_onStack? {p : Primitive} {f : Stack → Except Fault Stack}
    (hp : p.onStack? = some f) :
    Restrained standing (primitive p) := by
  rw [primitive_of_onStack? hp]
  refine .look fun m => ?_
  split
  · exact restrained_modifyEngine fun _ => rfl
  · next what herror =>
      refine restrained_raise ?_
      rcases isPrimitive_of_onStack? hp herror with rfl | rfl
      · exact id
      · exact id

lemma restrained_define : Restrained standing define := by
  refine .bind (restrained_modifyEngine fun _ => rfl) fun _ => restrained_nextName.standing.bind
    fun name => ?_
  refine .look fun m => ?_
  split
  · exact .bind (restrained_modifyEngine fun _ => rfl) fun _ => (restrained_report _).standing
  · exact .bind (restrained_modifyEngine fun _ => rfl) fun _ => (restrained_note _ _).standing

lemma restrained_endDefine : Restrained standing endDefine := by
  refine .bind (restrained_modifyEngine fun _ => rfl) fun _ => .look fun m => ?_
  dsimp only
  split
  · exact restrained_modifyEngine fun _ => rfl
  · refine .bind (restrained_modifyEngine fun _ => rfl) fun _ => ?_
    exact (restrained_note _ _).standing.bind fun _ => restrained_modifyEngine fun _ => rfl

lemma restrained_primitive (p : Primitive) : Restrained standing (primitive p) := by
  cases p with
  | print =>
      refine Restrained.standing (.look fun m => ?_)
      split
      · exact restrained_print _
      · exact restrained_write _
  | printStack => exact Restrained.standing (.look fun _ => restrained_write _)
  | add | sub | mul | div | dup | drop | swap => exact restrained_of_onStack? rfl
  | clear => exact restrained_modifyEngine fun _ => rfl
  | exit => exact (restrained_note _ _).standing.bind fun _ => restrained_modifyEngine fun _ => rfl
  | define => exact restrained_define
  | endDefine => exact restrained_endDefine
  | words => exact Restrained.standing (.look fun _ => restrained_write _)
  | see => exact restrained_see.standing

/-- **Natives are restrained**: all of them, those that fault, panic or give up their thread
included. -/
lemma restrained_native (n : Native) : Restrained standing (native n) := by
  cases n with
  | primitive p => exact restrained_primitive p
  | noop => exact restrained_pure ()
  | push n => exact restrained_modifyEngine fun _ => rfl
  | fail text => exact restrained_raise id
  | panic payload => exact restrained_throw (by simp)
  | abandon => exact restrained_throw (by simp)

/-! ## Words -/

/-- Whether prompts are shown. -/
def prompts (m : Machine) : Bool := m.input.prompting

lemma Restrained.prompts (h : Restrained Machine.standing act) : Restrained Machine.prompts act :=
  h.coarsen fun h' => (Prod.ext_iff.mp h').2

lemma restrained_engine (f : Engine → Engine) : Restrained prompts (modifyEngine f) := fun _ => rfl

lemma restrained_call (id : FuncId) : Restrained prompts (call id) := by
  refine .look fun m => ?_
  dsimp only
  split
  · exact restrained_raise (by simp [Fault.OfDecoding])
  · split
    · split
      · exact (restrained_native _).prompts
      · exact restrained_pure ()
    · refine .bind (.look fun m => ?_) fun _ =>
        (restrained_note _ _).standing.prompts.bind fun _ => restrained_engine _
      dsimp only
      split
      · exact restrained_raise (by simp [Fault.OfDecoding])
      · exact restrained_engine _

lemma restrained_ret : Restrained prompts ret := by
  refine .bind (.look fun m => ?_) fun frame => .bind (restrained_engine _) fun _ =>
    .look fun m => ?_
  · split
    · exact restrained_raise (by simp [Fault.OfDecoding])
    · exact .bind (restrained_engine _) fun _ => restrained_pure _
  · split
    · exact (restrained_note _ _).standing.prompts
    · exact restrained_pure ()

lemma restrained_compileCall (word : Text) (id : FuncId) :
    Restrained prompts (compileCall word id) := by
  refine .look fun m => ?_
  split
  · exact restrained_raise (by simp [Fault.OfDecoding])
  · split
    · exact (restrained_report _).standing.prompts
    · exact (restrained_note _ _).standing.prompts.bind fun _ => restrained_engine _

lemma restrained_compileLiteral (n : Int32) : Restrained prompts (compileLiteral n) := by
  refine .look fun m => ?_
  split
  · exact restrained_raise (by simp [Fault.OfDecoding])
  · exact (restrained_note _ _).standing.prompts.bind fun _ => restrained_engine _

lemma restrained_dispatchFunction (word : Text) (id : FuncId) (f : Function) :
    Restrained prompts (dispatchFunction word id f) := by
  rw [dispatchFunction]
  split
  · exact (restrained_note _ _).standing.prompts.bind fun _ => (restrained_call id).bind fun _ =>
      restrained_pure _
  · refine .look fun m => ?_
    split
    · exact (restrained_call id).bind fun _ => restrained_pure _
    · exact (restrained_compileCall word id).bind fun _ => restrained_pure _

lemma restrained_dispatchNumber (word : Text) : Restrained prompts (dispatchNumber word) := by
  rw [dispatchNumber]
  split
  · refine .look fun m => ?_
    dsimp only
    split
    · exact .bind (restrained_engine _) fun _ => restrained_pure _
    · exact (restrained_compileLiteral _).bind fun _ => restrained_pure _
  · have hreport (message : Text) : Restrained prompts (do report message; return true) :=
      (restrained_report message).standing.prompts.bind fun _ => restrained_pure _
    dsimp only
    split
    · exact (restrained_note _ _).standing.prompts.bind fun _ => hreport _
    · exact hreport _

lemma restrained_dispatch (word : Text) : Restrained prompts (dispatch word) := by
  refine .look fun m => ?_
  split
  · exact restrained_dispatchFunction word _ _
  · exact restrained_dispatchNumber word

lemma restrained_read : Restrained prompts read := by
  refine restrained_nextWord.standing.prompts.bind fun word => ?_
  cases word with
  | none => exact restrained_pure _
  | some word => exact restrained_dispatch word

/-- **A line of words is restrained**, whatever the words are. -/
lemma restrained_prompt : Restrained prompts prompt := by
  refine Restrained.loop (.look fun m => ?_) repeats_prompt
  split
  · exact restrained_read.bind fun _ => restrained_pure _
  · exact restrained_pure _

/-! ## Reading without a prompt -/

/-- The machine with prompts turned on or off. -/
def prompted (m : Machine) (on : Bool) : Machine :=
  { m with input := { m.input with prompting := on } }

section Quiet

variable {m m1 : Machine}

lemma readQuietly_eq (m : Machine) : readQuietly m = (attempt read >>= fun outcome => do
    modify (prompted · m.prompts)
    match outcome with
    | .ok _ => pure ()
    | .error what => raise what : Act Unit) (m.prompted false) := rfl

lemma readQuietly_of_ok {more : Bool} (h : read (m.prompted false) = .ok more m1) :
    readQuietly m = .ok () (m1.prompted m.prompts) := by
  have hattempt : attempt read (m.prompted false) = .ok (.ok more) m1 := by rw [attempt, h]
  rw [readQuietly_eq, bind_of_ok hattempt]
  rfl

lemma readQuietly_of_fault {what : Fault} (h : read (m.prompted false) = .error (.fault what) m1) :
    readQuietly m = .error (.fault what) (m1.prompted m.prompts) := by
  have hattempt : attempt read (m.prompted false) = .ok (.error what) m1 := by rw [attempt, h]
  rw [readQuietly_eq, bind_of_ok hattempt]
  rfl

/-- Whatever else breaks the reading off, breaks it off before the prompts are turned on again. -/
lemma readQuietly_of_broken {i : Interrupt} (h : read (m.prompted false) = .error i m1)
    (hi : ∀ what, i ≠ .fault what) : readQuietly m = .error i m1 := by
  have hattempt : attempt read (m.prompted false) = .error i m1 := by
    rw [attempt, h]
    cases i with
    | fault what => exact absurd rfl (hi what)
    | halt cause => rfl
    | panic payload => rfl
    | abandon => rfl
  rw [readQuietly_eq, bind_of_error hattempt]

lemma not_ofDecoding_of_readQuietly {what : Fault} (h : readQuietly m = .error (.fault what) m1) :
    ¬ what.OfDecoding := by
  rcases hread : read (m.prompted false) with ⟨more, m2⟩ | ⟨i, m2⟩
  · rw [readQuietly_of_ok hread] at h
    cases h
  · by_cases hi : ∃ what', i = .fault what'
    · obtain ⟨what', rfl⟩ := hi
      rw [readQuietly_of_fault hread] at h
      cases h
      exact restrained_read.not_ofDecoding hread
    · rw [readQuietly_of_broken hread fun what' hwhat => hi ⟨what', hwhat⟩] at h
      cases h
      exact absurd ⟨what, rfl⟩ hi

end Quiet

end Machine

end ColonMachine
