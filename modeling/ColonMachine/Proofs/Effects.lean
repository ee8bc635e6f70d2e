import ColonMachine.Machine.Step
import ColonMachine.Proofs.Vocabulary

/-!
# What an action can do

Every action either completes or is interrupted, and leaves a machine either way; `Does` says both
in one statement.  It composes along `>>=` (`does_bind`), so that what an action does is read off
what its parts do.

Two kinds of action are told apart.

* An action that **talks** (`Talks`) leaves the engine alone, keeps the source tidy, and is
  interrupted by nothing but a halt.  Noting, writing, reporting, reading a word and showing
  definitions are all of this kind.
* The other primitives change the engine, and `Effect` lists the ways in which they do.
  `primitive_effect` is the only place where the primitives are looked at one by one: a fault
  leaves the machine as it was, and is a stack underflow or a division by zero.
-/

namespace ColonMachine

section Bind

variable {ε σ α β : Type} {act : EStateM ε σ α} {next : α → EStateM ε σ β} {s s' : σ}

lemma bind_apply (act : EStateM ε σ α) (next : α → EStateM ε σ β) (s : σ) :
    (act >>= next) s = match act s with
      | .ok a s' => next a s'
      | .error i s' => .error i s' := by
  change EStateM.bind act next s = _
  rw [EStateM.bind]
  cases act s <;> rfl

lemma bind_of_ok {a : α} (h : act s = .ok a s') : (act >>= next) s = next a s' := by
  rw [bind_apply, h]

lemma bind_of_error {i : ε} (h : act s = .error i s') : (act >>= next) s = .error i s' := by
  rw [bind_apply, h]

end Bind

namespace Machine

variable {α β : Type} {m : Machine}

/-! ## Completing and being interrupted -/

/-- From `m`, the action completes as `ok` says, or is interrupted as `broken` says. -/
def Does (act : Act α) (m : Machine) (ok : α → Machine → Prop)
    (broken : Interrupt → Machine → Prop) : Prop :=
  match act m with
  | .ok a m' => ok a m'
  | .error i m' => broken i m'

lemma Does.imp {act : Act α} {ok ok' : α → Machine → Prop}
    {broken broken' : Interrupt → Machine → Prop} (h : Does act m ok broken)
    (hok : ∀ a m', ok a m' → ok' a m') (hbroken : ∀ i m', broken i m' → broken' i m') :
    Does act m ok' broken' := by
  rw [Does] at h ⊢
  cases hact : act m with
  | ok a m' => rw [hact] at h; exact hok a m' h
  | error i m' => rw [hact] at h; exact hbroken i m' h

lemma Does.of_ok {act : Act α} {ok : α → Machine → Prop} {broken : Interrupt → Machine → Prop}
    {a : α} {m' : Machine} (h : Does act m ok broken) (hact : act m = .ok a m') : ok a m' := by
  rw [Does, hact] at h
  exact h

lemma Does.of_error {act : Act α} {ok : α → Machine → Prop} {broken : Interrupt → Machine → Prop}
    {i : Interrupt} {m' : Machine} (h : Does act m ok broken) (hact : act m = .error i m') :
    broken i m' := by
  rw [Does, hact] at h
  exact h

lemma does_of_ok {act : Act α} {ok : α → Machine → Prop} {broken : Interrupt → Machine → Prop}
    {a : α} {m' : Machine} (hact : act m = .ok a m') (h : ok a m') : Does act m ok broken := by
  rw [Does, hact]
  exact h

lemma does_of_error {act : Act α} {ok : α → Machine → Prop} {broken : Interrupt → Machine → Prop}
    {i : Interrupt} {m' : Machine} (hact : act m = .error i m') (h : broken i m') :
    Does act m ok broken := by
  rw [Does, hact]
  exact h

/-- Two actions that come to the same result do the same. -/
lemma Does.congr {act act' : Act α} {m' : Machine} {ok : α → Machine → Prop}
    {broken : Interrupt → Machine → Prop} (h : Does act m ok broken) (heq : act' m' = act m) :
    Does act' m' ok broken := by
  rw [Does] at h ⊢
  rwa [heq]

lemma get_bind (next : Machine → Act β) (m : Machine) :
    ((get : Act Machine) >>= next) m = next m m := rfl

@[simp] lemma does_bind (act : Act α) (next : α → Act β) (ok : β → Machine → Prop)
    (broken : Interrupt → Machine → Prop) :
    Does (act >>= next) m ok broken
      ↔ Does act m (fun a m' => Does (next a) m' ok broken) broken := by
  rw [Does, Does, bind_apply]
  cases act m <;> rfl

@[simp] lemma does_pure (a : α) (ok : α → Machine → Prop) (broken : Interrupt → Machine → Prop) :
    Does (pure a : Act α) m ok broken ↔ ok a m := Iff.rfl

@[simp] lemma does_get (ok : Machine → Machine → Prop) (broken : Interrupt → Machine → Prop) :
    Does (get : Act Machine) m ok broken ↔ ok m m := Iff.rfl

@[simp] lemma does_modify (f : Machine → Machine) (ok : Unit → Machine → Prop)
    (broken : Interrupt → Machine → Prop) :
    Does (modify f : Act Unit) m ok broken ↔ ok () (f m) := Iff.rfl

@[simp] lemma does_modifyEngine (f : Engine → Engine) (ok : Unit → Machine → Prop)
    (broken : Interrupt → Machine → Prop) :
    Does (modifyEngine f) m ok broken ↔ ok () { m with engine := f m.engine } := Iff.rfl

/-! ## Actions that talk -/

/-- The action leaves the engine alone and the source tidy, and only a halt interrupts it. -/
def Talks (act : Act α) : Prop :=
  ∀ m, Does act m
    (fun _ m' => m'.engine = m.engine ∧ (m.input.Tidy → m'.input.Tidy))
    (fun i m' => (∃ cause, i = .halt cause) ∧ m'.engine = m.engine)

lemma talks_pure (a : α) : Talks (pure a : Act α) := fun _ => ⟨rfl, id⟩

lemma Talks.bind {act : Act α} {next : α → Act β} (h : Talks act) (hnext : ∀ a, Talks (next a)) :
    Talks (act >>= next) := by
  intro m
  rw [does_bind]
  refine (h m).imp (fun a m' hm' => ?_) (fun i m' hi => hi)
  refine (hnext a m').imp (fun b m'' hm'' => ?_) (fun i m'' hi => ?_)
  · exact ⟨hm''.1.trans hm'.1, fun ht => hm''.2 (hm'.2 ht)⟩
  · exact ⟨hi.1, hi.2.trans hm'.1⟩

lemma talks_get : Talks (get : Act Machine) := fun _ => ⟨rfl, id⟩

lemma talks_modify {f : Machine → Machine} (hengine : ∀ m, (f m).engine = m.engine)
    (htidy : ∀ m, m.input.Tidy → (f m).input.Tidy) : Talks (modify f : Act Unit) :=
  fun m => ⟨hengine m, htidy m⟩

@[simp] lemma engine_noted (mark : Text) (message : Machine → Text) (m : Machine) :
    (noted mark message m).engine = m.engine := by
  rw [noted]
  split <;> rfl

@[simp] lemma input_noted (mark : Text) (message : Machine → Text) (m : Machine) :
    (noted mark message m).input = m.input := by
  rw [noted]
  split <;> rfl

@[simp] lemma console_noted (mark : Text) (message : Machine → Text) (m : Machine) :
    (noted mark message m).console = m.console := by
  rw [noted]
  split <;> rfl

/-- The machine `m'` is `m` with the engine `e`, whatever their traces are. -/
structure Becomes (m : Machine) (e : Engine) (m' : Machine) : Prop where
  engine : m'.engine = e
  input : m'.input = m.input
  console : m'.console = m.console

lemma becomes_engine (m : Machine) (e : Engine) : Becomes m e { m with engine := e } :=
  ⟨rfl, rfl, rfl⟩

lemma Becomes.noted {e : Engine} {m' : Machine} (h : Becomes m e m') (mark : Text)
    (message : Machine → Text) : Becomes m e (noted mark message m') :=
  ⟨by rw [engine_noted, h.engine], by rw [input_noted, h.input],
    by rw [console_noted, h.console]⟩

lemma talks_note (mark : Text) (message : Machine → Text) : Talks (note mark message) :=
  talks_modify (engine_noted mark message) fun m hm => by rwa [input_noted]

lemma talks_speak (act : Console → Option Failure × Console) : Talks (speak act) :=
  fun _ => ⟨rfl, id⟩

lemma talks_throw_halt (cause : Option Failure) : Talks (throw (.halt cause) : Act α) :=
  fun _ => ⟨⟨cause, rfl⟩, rfl⟩

lemma talks_halt (cause : Option Failure) : Talks (halt cause : Act α) :=
  (talks_speak _).bind fun _ => (talks_note _ _).bind fun _ => talks_throw_halt _

lemma talks_haltIf (failure : Option Failure) : Talks (haltIf failure) := by
  cases failure with
  | none => exact talks_pure ()
  | some failure => exact talks_halt _

lemma talks_write (t : Text) : Talks (write t) := (talks_speak _).bind talks_haltIf

lemma talks_print (t : Text) : Talks (print t) := (talks_speak _).bind talks_haltIf

lemma talks_discard : Talks discard :=
  talks_modify (fun _ => rfl) fun m _ => m.input.tidy_discard

lemma talks_report (message : Text) : Talks (report message) :=
  (talks_note _ _).bind fun _ => talks_get.bind fun _ => (talks_write _).bind fun _ =>
    (talks_write _).bind fun _ => (talks_modify (fun _ => rfl) fun _ => id).bind fun _ =>
      talks_discard

lemma talks_pull : Talks pull := fun _ => ⟨rfl, Source.tidy_nextWord⟩

lemma talks_accept (r : Except Failure (Option Text)) : Talks (accept r) := by
  rcases r with failure | _ | word
  · exact talks_halt _
  · exact talks_pure none
  · exact (talks_note _ _).bind fun _ => talks_pure (some word)

lemma talks_nextWord : Talks nextWord := talks_pull.bind talks_accept

lemma nextName_of_line {m' : Machine} (h : nextWord m = .ok none m') :
    nextName m = nextName m' := by
  rw [nextName, h]

lemma nextName_of_word {m' : Machine} {name : Text} (h : nextWord m = .ok (some name) m') :
    nextName m = .ok name m' := by
  rw [nextName, h]

lemma nextName_of_error {m' : Machine} {i : Interrupt} (h : nextWord m = .error i m') :
    nextName m = .error i m' := by
  rw [nextName, h]

lemma talks_nextName : Talks nextName := by
  intro m
  induction m using nextName.induct with
  | case1 m m1 hword ih =>
      have h := (talks_nextWord m).of_ok hword
      refine (ih.congr (nextName_of_line hword)).imp (fun _ m' hm' => ?_)
        (fun i m' hi => ⟨hi.1, hi.2.trans h.1⟩)
      exact ⟨hm'.1.trans h.1, fun ht => hm'.2 (h.2 ht)⟩
  | case2 m name m1 hword =>
      exact does_of_ok (nextName_of_word hword) ((talks_nextWord m).of_ok hword)
  | case3 m i m1 hword =>
      exact does_of_error (nextName_of_error hword) ((talks_nextWord m).of_error hword)

lemma talks_printTop : Talks printTop := by
  refine talks_get.bind fun m => ?_
  split
  · exact talks_print _
  · exact talks_write _

lemma talks_printStack : Talks printStack := talks_get.bind fun _ => talks_write _

lemma talks_words : Talks words := talks_get.bind fun _ => talks_write _

lemma talks_seeName (name : Text) : Talks (seeName name) := by
  refine talks_get.bind fun m => ?_
  dsimp only
  split
  · exact talks_report _
  · exact talks_write _

lemma talks_see : Talks see := by
  refine talks_nextWord.bind fun word => ?_
  cases word with
  | none => exact talks_report _
  | some name => exact talks_seeName name

/-! ## Words and names -/

lemma isWord_of_nextWord {m' : Machine} {w : Text} (htidy : m.input.Tidy)
    (h : nextWord m = .ok (some w) m') : w.IsWord := by
  rw [nextWord_eq] at h
  exact Source.isWord_of_nextWord htidy (accept_eq_ok h).1

lemma isWord_of_nextName {m' : Machine} {name : Text} (htidy : m.input.Tidy)
    (h : nextName m = .ok name m') : name.IsWord := by
  induction m using nextName.induct with
  | case1 m m1 hword ih =>
      rw [nextName_of_line hword] at h
      exact ih (((talks_nextWord m).of_ok hword).2 htidy) h
  | case2 m name' m1 hword =>
      rw [nextName_of_word hword] at h
      cases h
      exact isWord_of_nextWord htidy hword
  | case3 m i m1 hword =>
      rw [nextName_of_error hword] at h
      cases h

end Machine

/-! ## The effects of the primitives -/

/-- The engine after the open definition, if there is one, has been closed. -/
def Engine.closed (e : Engine) : Engine :=
  { e with
    mode := .execute
    defining := none
    dict := match e.opened? with
      | none => e.dict
      | some (target, _) => e.dict.emit target [Opcode.ret.code] }

/-- What running a primitive to its end can do to an engine. -/
inductive Effect (e : Engine) : Primitive → Engine → Prop where
  | stack (p : Primitive) (s : Stack) : Effect e p { e with stack := s }
  | exit : Effect e .exit { e with running := false }
  /-- A definition is opened under a word that was not in the dictionary. -/
  | opened {name : Text} (hname : name.IsWord) (hnew : e.dict.find? name = none) :
      Effect e .define
        { e with mode := .compile, defining := some e.dict.nextId, dict := e.dict.add name }
  /-- A definition was asked for under a name that is in the dictionary. -/
  | refused : Effect e .define { e with mode := .execute, defining := none }
  | closed : Effect e .endDefine e.closed

lemma Effect.refl (e : Engine) (p : Primitive) : Effect e p e := Effect.stack p e.stack

def Fault.IsPrimitive (what : Fault) : Prop := what = .stackUnderflow ∨ what = .divisionByZero

/-- What a primitive does to the data stack, if it does nothing else. -/
def Primitive.onStack? : Primitive → Option (Stack → Except Fault Stack)
  | add => some (Stack.binary (· + ·))
  | sub => some (Stack.binary (· - ·))
  | mul => some (Stack.binary (· * ·))
  | div => some Stack.divide
  | dup => some Stack.dup
  | drop => some Stack.drop
  | swap => some Stack.swap
  | _ => none

namespace Machine

variable {α : Type} {m : Machine} {p : Primitive}

/-- What an action comes to that does no more than the primitive `p`: it has an effect, or halts the
session, or faults and leaves the machine as it was. -/
def Affects (p : Primitive) (act : Act Unit) : Prop :=
  ∀ m, m.input.Tidy → Does act m
    (fun _ m' => Effect m.engine p m'.engine ∧ m'.input.Tidy)
    (fun i m' => (∃ cause, i = .halt cause) ∨ ∃ what, i = .fault what ∧ what.IsPrimitive ∧ m' = m)

lemma Talks.affects {act : Act Unit} (h : Talks act) : Affects p act := by
  intro m htidy
  refine (h m).imp (fun _ m' hm' => ?_) (fun i m' hi => Or.inl hi.1)
  exact ⟨by rw [hm'.1]; exact Effect.refl _ _, hm'.2 htidy⟩

lemma isPrimitive_of_binary {op : Int32 → Int32 → Int32} {s : Stack} {what : Fault}
    (h : Stack.binary op s = .error what) : what.IsPrimitive := by
  rcases s with _ | ⟨b, _ | ⟨a, s⟩⟩ <;> cases h
  · exact Or.inl rfl
  · exact Or.inl rfl

lemma isPrimitive_of_divide {s : Stack} {what : Fault} (h : Stack.divide s = .error what) :
    what.IsPrimitive := by
  rcases s with _ | ⟨b, _ | ⟨a, s⟩⟩
  · cases h; exact Or.inl rfl
  · cases h; exact Or.inl rfl
  · simp only [Stack.divide] at h
    split_ifs at h
    cases h
    exact Or.inr rfl

section OnStack

variable {f : Stack → Except Fault Stack} (hp : p.onStack? = some f)
include hp

lemma primitive_of_onStack? : primitive p = onStack f := by
  cases p <;> cases hp <;> rfl

lemma isPrimitive_of_onStack? {s : Stack} {what : Fault} (h : f s = .error what) :
    what.IsPrimitive := by
  cases p <;> cases hp
  case add | sub | mul => exact isPrimitive_of_binary h
  case div => exact isPrimitive_of_divide h
  case dup | drop =>
    rcases s with _ | ⟨a, s⟩ <;> cases h
    exact Or.inl rfl
  case swap =>
    rcases s with _ | ⟨b, _ | ⟨a, s⟩⟩ <;> cases h
    · exact Or.inl rfl
    · exact Or.inl rfl

lemma affects_of_onStack? : Affects p (primitive p) := by
  intro m htidy
  simp only [primitive_of_onStack? hp, onStack, does_bind, does_get]
  cases hs : f m.engine.stack with
  | ok s => exact ⟨Effect.stack p s, htidy⟩
  | error what => exact Or.inr ⟨what, rfl, isPrimitive_of_onStack? hp hs, rfl⟩

end OnStack

lemma affects_exit : Affects .exit exit := by
  intro m htidy
  have hnote := talks_note (utf8 "exit") (fun m => utf8 "stack: " ++ m.stackText) m
  simp only [exit, does_bind, does_modifyEngine]
  refine hnote.imp (fun _ m' hm' => ?_) (fun i m' hi => Or.inl hi.1)
  exact ⟨by rw [hm'.1]; exact Effect.exit, hm'.2 htidy⟩

section Define

variable {m1 : Machine} {name : Text}

lemma define_eq (m : Machine) : define m = (nextName >>= fun name => do
    match (← get).engine.dict.find? name with
    | some _ =>
      modifyEngine fun e => { e with mode := .execute, defining := none }
      report (utf8 "Function already defined: " ++ name)
    | none =>
      modifyEngine fun e => { e with defining := some e.dict.nextId, dict := e.dict.add name }
      note (utf8 "define") fun m =>
        name ++ utf8 " #" ++ Text.ofInt (m.engine.defining.getD 0) : Act Unit)
      { m with engine := { m.engine with mode := .compile } } := rfl

lemma define_of_error {i : Interrupt}
    (hread : nextName { m with engine := { m.engine with mode := .compile } } = .error i m1) :
    define m = .error i m1 := by
  rw [define_eq, bind_of_error hread]

lemma define_taken {id : FuncId}
    (hread : nextName { m with engine := { m.engine with mode := .compile } } = .ok name m1)
    (hfind : m1.engine.dict.find? name = some id) :
    define m = report (utf8 "Function already defined: " ++ name)
      { m1 with engine := { m1.engine with mode := .execute, defining := none } } := by
  rw [define_eq, bind_of_ok hread, get_bind]
  simp only [hfind]
  rfl

lemma define_new
    (hread : nextName { m with engine := { m.engine with mode := .compile } } = .ok name m1)
    (hfind : m1.engine.dict.find? name = none) :
    define m = .ok () (noted (utf8 "define")
      (fun m => name ++ utf8 " #" ++ Text.ofInt (m.engine.defining.getD 0))
      { m1 with engine := { m1.engine with
        defining := some m1.engine.dict.nextId, dict := m1.engine.dict.add name } }) := by
  rw [define_eq, bind_of_ok hread, get_bind]
  simp only [hfind]
  rfl

end Define

lemma affects_define : Affects .define define := by
  intro m htidy
  have hname := talks_nextName { m with engine := { m.engine with mode := .compile } }
  cases hread : nextName { m with engine := { m.engine with mode := .compile } } with
  | error i m1 => exact does_of_error (define_of_error hread) (Or.inl (hname.of_error hread).1)
  | ok name m1 =>
      obtain ⟨hengine, htidy1⟩ := hname.of_ok hread
      cases hfind : m1.engine.dict.find? name with
      | some id =>
          -- whatever was open is forgotten
          refine Does.congr ?_ (define_taken hread hfind)
          refine (talks_report _ _).imp (fun _ m2 hm2 => ?_) (fun i m2 hi => Or.inl hi.1)
          refine ⟨?_, hm2.2 (htidy1 htidy)⟩
          rw [hm2.1, hengine]
          exact Effect.refused
      | none =>
          refine does_of_ok (define_new hread hfind) ⟨?_, ?_⟩
          · rw [engine_noted, hengine]
            rw [hengine] at hfind
            refine Effect.opened (isWord_of_nextName ?_ hread) hfind
            exact htidy
          · rw [input_noted]
            exact htidy1 htidy

lemma endDefine_eq (m : Machine) :
    ∃ m1, Becomes m m.engine.closed m1 ∧ endDefine m = .ok () m1 := by
  have hend : endDefine m = (do
    match m.engine.opened? with
    | none => pure ()
    | some (target, f) =>
      emit target [Opcode.ret.code]
      note (utf8 "define") fun _ =>
        f.name ++ utf8 " done " ++ Code.listText (f.emit [Opcode.ret.code]).code
    modifyEngine fun e => { e with defining := none } : Act Unit)
      { m with engine := { m.engine with mode := .execute } } := rfl
  rw [hend, Engine.closed]
  cases hopened : m.engine.opened? with
  | none => exact ⟨_, becomes_engine m _, rfl⟩
  | some opened =>
      obtain ⟨target, f⟩ := opened
      refine ⟨_, ⟨?_, ?_, ?_⟩, rfl⟩
      · simp only [engine_noted]
      · exact input_noted ..
      · exact console_noted ..

lemma affects_endDefine : Affects .endDefine endDefine := by
  intro m htidy
  obtain ⟨m1, hm1, hend⟩ := endDefine_eq m
  refine does_of_ok hend ⟨?_, by rw [hm1.input]; exact htidy⟩
  rw [hm1.engine]
  exact Effect.closed

/-- **The effects of the primitives**, all of them. -/
lemma primitive_effect (p : Primitive) : Affects p (primitive p) := by
  cases p with
  | print => exact talks_printTop.affects
  | printStack => exact talks_printStack.affects
  | add | sub | mul | div | dup | drop | swap => exact affects_of_onStack? rfl
  | clear => exact fun m htidy => ⟨Effect.stack _ [], htidy⟩
  | exit => exact affects_exit
  | define => exact affects_define
  | endDefine => exact affects_endDefine
  | words => exact talks_words.affects
  | see => exact talks_see.affects

end Machine

end ColonMachine
