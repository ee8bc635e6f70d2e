import ColonMachine.Proofs.Faults

/-!
# Machines that differ in where they are

Two machines are **alike** if they have the same data stack, dictionary, mode, open definition,
running flag, limit and console.  They may stand at different places in the code, have been called
from different places, and have different input in front of them.

An action is **parallel** if two machines that are alike stay so: either it completes in both, with
the same result, or it is interrupted in both, in the same way.  Everything that writes is parallel,
and so are all primitives that neither read a word nor deal with definitions, and recovering from a
fault.
-/

namespace ColonMachine.Machine

variable {α β : Type} {a b a' b' : Machine}

structure Alike (a b : Machine) : Prop where
  stack : a.engine.stack = b.engine.stack
  dict : a.engine.dict = b.engine.dict
  mode : a.engine.mode = b.engine.mode
  defining : a.engine.defining = b.engine.defining
  running : a.engine.running = b.engine.running
  limit : a.engine.limit = b.engine.limit
  console : a.console = b.console

lemma alike_refl (a : Machine) : Alike a a := ⟨rfl, rfl, rfl, rfl, rfl, rfl, rfl⟩

/-- Moving to other places in the code, with a new data stack. -/
lemma Alike.moved (h : Alike a b) (c c' : Control) {s s' : Stack} (hs : s = s')
    (ha : Becomes a { a.engine with fn := c.fn, pc := c.pc, frames := c.frames, stack := s } a')
    (hb : Becomes b
    { b.engine with fn := c'.fn, pc := c'.pc, frames := c'.frames, stack := s' } b') :
    Alike a' b' := by
  refine ⟨?_, ?_, ?_, ?_, ?_, ?_, ?_⟩
  · rw [ha.engine, hb.engine]; exact hs
  · rw [ha.engine, hb.engine]; exact h.dict
  · rw [ha.engine, hb.engine]; exact h.mode
  · rw [ha.engine, hb.engine]; exact h.defining
  · rw [ha.engine, hb.engine]; exact h.running
  · rw [ha.engine, hb.engine]; exact h.limit
  · rw [ha.console, hb.console]; exact h.console

/-! ## Parallel actions -/

inductive Same : Result α → Result α → Prop where
  | ok (x : α) {a b : Machine} (h : Alike a b) : Same (.ok x a) (.ok x b)
  | error (i : Interrupt) {a b : Machine} (h : Alike a b) : Same (.error i a) (.error i b)

def Parallel (act : Act α) : Prop := ∀ a b, Alike a b → Same (act a) (act b)

lemma parallel_pure (x : α) : Parallel (pure x : Act α) := fun _ _ h => .ok x h

lemma parallel_throw (i : Interrupt) : Parallel (throw i : Act α) := fun _ _ h => .error i h

lemma Parallel.bind {act : Act α} {next : α → Act β} (h : Parallel act)
    (hnext : ∀ x, Parallel (next x)) : Parallel (act >>= next) := by
  intro a b hab
  have hact := h a b hab
  rw [bind_apply, bind_apply]
  generalize act a = ra at hact
  generalize act b = rb at hact
  cases hact with
  | ok x hab => exact hnext x _ _ hab
  | error i hab => exact .error i hab

/-- An action that looks at the machine, if it sees the same in both. -/
lemma parallel_get_bind {next : Machine → Act β} (hsame : ∀ a b, Alike a b → next a = next b)
    (hnext : ∀ a, Parallel (next a)) : Parallel ((get : Act Machine) >>= next) := by
  intro a b hab
  rw [get_bind, get_bind, hsame a b hab]
  exact hnext b a b hab

lemma parallel_modify {f : Machine → Machine} (hf : ∀ a b, Alike a b → Alike (f a) (f b)) :
    Parallel (modify f : Act Unit) := fun a b hab => .ok () (hf a b hab)

lemma parallel_note (mark : Text) (message : Machine → Text) : Parallel (note mark message) := by
  refine parallel_modify fun a b hab => ⟨?_, ?_, ?_, ?_, ?_, ?_, ?_⟩
  · rw [engine_noted, engine_noted]; exact hab.stack
  · rw [engine_noted, engine_noted]; exact hab.dict
  · rw [engine_noted, engine_noted]; exact hab.mode
  · rw [engine_noted, engine_noted]; exact hab.defining
  · rw [engine_noted, engine_noted]; exact hab.running
  · rw [engine_noted, engine_noted]; exact hab.limit
  · rw [console_noted, console_noted]; exact hab.console

lemma parallel_speak (act : Console → Option Failure × Console) : Parallel (speak act) := by
  intro a b hab
  rw [speak, speak, hab.console]
  exact .ok _ ⟨hab.stack, hab.dict, hab.mode, hab.defining, hab.running, hab.limit, rfl⟩

lemma parallel_halt (cause : Option Failure) : Parallel (halt cause : Act α) :=
  (parallel_speak _).bind fun _ => (parallel_note _ _).bind fun _ => parallel_throw _

lemma parallel_haltIf (failure : Option Failure) : Parallel (haltIf failure) := by
  cases failure with
  | none => exact parallel_pure ()
  | some failure => exact parallel_halt _

lemma parallel_write (t : Text) : Parallel (write t) := (parallel_speak _).bind parallel_haltIf

lemma parallel_print (t : Text) : Parallel (print t) := (parallel_speak _).bind parallel_haltIf

lemma parallel_report (message : Text) : Parallel (report message) := by
  refine (parallel_note _ _).bind fun _ => parallel_get_bind ?_ fun _ =>
    (parallel_write _).bind fun _ => (parallel_write _).bind fun _ =>
      (parallel_modify ?_).bind fun _ => parallel_modify ?_
  · intro a b hab
    rw [hab.console]
  · intro a b hab
    exact ⟨hab.stack, hab.dict, hab.mode, hab.defining, hab.running, hab.limit,
      by rw [hab.console]⟩
  · intro a b hab
    exact ⟨hab.stack, hab.dict, hab.mode, hab.defining, hab.running, hab.limit, hab.console⟩

lemma parallel_recover (what : Fault) : Parallel (recover what) := by
  refine (parallel_note _ _).bind fun _ => (parallel_report _).bind fun _ => parallel_modify ?_
  intro a b hab
  exact ⟨hab.stack, hab.dict, by simp only [hab.mode, hab.defining], hab.defining, hab.running,
    hab.limit, hab.console⟩

/-! ## Primitives -/

lemma parallel_onStack (f : Stack → Except Fault Stack) : Parallel (onStack f) := by
  refine parallel_get_bind (fun a b hab => by rw [hab.stack]) fun a => ?_
  cases f a.engine.stack with
  | error what => exact parallel_throw _
  | ok s =>
      refine parallel_modify fun a b hab => ?_
      exact ⟨rfl, hab.dict, hab.mode, hab.defining, hab.running, hab.limit, hab.console⟩

lemma parallel_primitive {p : Primitive} (hdefine : p ≠ .define) (hend : p ≠ .endDefine)
    (hsee : p ≠ .see) : Parallel (primitive p) := by
  cases p with
  | print =>
      refine parallel_get_bind (fun a b hab => by rw [hab.stack]) fun a => ?_
      split
      · exact parallel_print _
      · exact parallel_write _
  | printStack =>
      exact parallel_get_bind (fun a b hab => by rw [hab.stack]) fun _ => parallel_write _
  | words => exact parallel_get_bind (fun a b hab => by rw [hab.dict]) fun _ => parallel_write _
  | clear =>
      refine parallel_modify fun a b hab => ?_
      exact ⟨rfl, hab.dict, hab.mode, hab.defining, hab.running, hab.limit, hab.console⟩
  | exit =>
      refine (parallel_note _ _).bind fun _ => parallel_modify fun a b hab => ?_
      exact ⟨hab.stack, hab.dict, hab.mode, hab.defining, rfl, hab.limit, hab.console⟩
  | define => exact absurd rfl hdefine
  | endDefine => exact absurd rfl hend
  | see => exact absurd rfl hsee
  | _ => exact parallel_onStack _

end ColonMachine.Machine
