import ColonMachine.Machine.Stack

/-!
# How much input an action uses

Loops that read words come to an end because the input does: every word read makes what is
pending smaller.  `Within k act` says that completing `act` leaves at most `k` more pending than
before.  Only dropping the rest of a line can add anything, namely the mark at its end, so most
actions are within 0 and a diagnostic is within 1, while reading a word gains 2.
-/

namespace ColonMachine.Machine

variable {α β : Type}

/-- What is left to be read by a machine. -/
def pending (m : Machine) : Nat := m.input.pending

/-- Completing the action leaves at most `k` more pending than there was. -/
def Within (k : Nat) (act : Act α) : Prop :=
  ∀ m a m', act m = .ok a m' → m'.pending ≤ m.pending + k

/-- An action that never completes is within any bound. -/
def Broken (act : Act α) : Prop := ∀ m a m', act m ≠ .ok a m'

theorem Broken.within {act : Act α} (h : Broken act) (k : Nat) : Within k act :=
  fun m a m' hok => absurd hok (h m a m')

theorem within_pure (a : α) : Within 0 (pure a : Act α) := by
  intro m b m' h
  cases h
  exact Nat.le_refl _

theorem Within.mono {j k : Nat} {act : Act α} (h : Within j act) (hjk : j ≤ k) : Within k act :=
  fun m a m' hok => Nat.le_trans (h m a m' hok) (by omega)

theorem Within.bind {j k : Nat} {act : Act α} {next : α → Act β} (h : Within j act)
    (hnext : ∀ a, Within k (next a)) : Within (j + k) (act >>= next) := by
  intro m b m' hok
  change EStateM.bind act next m = _ at hok
  unfold EStateM.bind at hok
  split at hok
  · next a m1 h1 =>
    have := h m a m1 h1
    have := hnext a m1 b m' hok
    omega
  · cases hok

theorem Within.bind_zero {k : Nat} {act : Act α} {next : α → Act β} (h : Within 0 act)
    (hnext : ∀ a, Within k (next a)) : Within k (act >>= next) := by
  simpa using h.bind hnext

theorem broken_throw (i : Interrupt) : Broken (throw i : Act α) := by
  intro m a m' h
  cases h

theorem broken_raise (what : Fault) : Broken (raise what : Act α) := broken_throw _

theorem Broken.bind {act : Act α} {next : α → Act β} (hnext : ∀ a, Broken (next a)) :
    Broken (act >>= next) := by
  intro m b m' hok
  change EStateM.bind act next m = _ at hok
  unfold EStateM.bind at hok
  split at hok
  · exact hnext _ _ _ _ hok
  · cases hok

theorem within_get : Within 0 (get : Act Machine) := by
  intro m a m' h
  cases h
  exact Nat.le_refl _

theorem within_modify {f : Machine → Machine} {k : Nat} (h : ∀ m, (f m).pending ≤ m.pending + k) :
    Within k (modify f : Act Unit) := by
  intro m a m' hok
  cases hok
  exact h m

/-! ## The dialogue -/

theorem pending_noted (mark : Text) (message : Machine → Text) (m : Machine) :
    (noted mark message m).pending = m.pending := by
  unfold noted
  split <;> rfl

theorem within_note (mark : Text) (message : Machine → Text) : Within 0 (note mark message) :=
  within_modify fun m => by simp [pending_noted]

theorem within_speak (act : Console → Option Failure × Console) : Within 0 (speak act) := by
  intro m a m' h
  cases h
  exact Nat.le_refl _

theorem broken_halt (cause : Option Failure) : Broken (halt cause : Act α) :=
  Broken.bind fun _ => Broken.bind fun _ => broken_throw _

theorem within_haltIf (failure : Option Failure) : Within 0 (haltIf failure) := by
  cases failure with
  | none => exact within_pure _
  | some f => exact (broken_halt _).within 0

theorem within_write (t : Text) : Within 0 (write t) := (within_speak _).bind_zero within_haltIf

theorem within_print (t : Text) : Within 0 (print t) := (within_speak _).bind_zero within_haltIf

theorem within_discard : Within 1 discard := within_modify fun m => m.input.pending_discard

theorem within_report (message : Text) : Within 1 (report message) :=
  (within_note _ _).bind_zero fun _ => within_get.bind_zero fun _ =>
    (within_write _).bind_zero fun _ => (within_write _).bind_zero fun _ =>
      (within_modify fun _ => Nat.le_refl _).bind_zero fun _ => within_discard

theorem accept_eq_ok {r : Except Failure (Option Text)} {m m' : Machine} {word : Option Text}
    (h : accept r m = .ok word m') : r = .ok word ∧ m'.pending = m.pending := by
  rcases r with failure | _ | w
  · exact absurd h (broken_halt _ _ _ _)
  · cases h
    exact ⟨rfl, rfl⟩
  · cases h
    exact ⟨rfl, pending_noted ..⟩

theorem nextWord_eq (m : Machine) :
    nextWord m =
      accept (m.input.nextWord (Console.hooks m.engine.mode) m.console).1
        { m with
          input := (m.input.nextWord (Console.hooks m.engine.mode) m.console).2.1
          console := (m.input.nextWord (Console.hooks m.engine.mode) m.console).2.2 } := rfl

/-- Reading a word uses up a weight of two, and reading the mark of a line a weight of one. -/
theorem pending_of_nextWord {m m' : Machine} {word : Option Text} (h : nextWord m = .ok word m') :
    m'.pending + (if word.isSome then 2 else 1) ≤ m.pending := by
  rw [nextWord_eq] at h
  generalize hread : m.input.nextWord (Console.hooks m.engine.mode) m.console = read at h
  obtain ⟨hword, hpending⟩ := accept_eq_ok h
  rw [hpending]
  exact Source.pending_nextWord (show m.input.nextWord _ m.console = (.ok word, _, _) by
    rw [hread, ← hword])

/-! ## The stacks -/

theorem within_modifyEngine (f : Engine → Engine) : Within 0 (modifyEngine f) :=
  within_modify fun _ => Nat.le_refl _

theorem within_push (n : Int32) : Within 0 (push n) := within_modifyEngine _

theorem within_onStack (f : Stack → Except Fault Stack) : Within 0 (onStack f) :=
  within_get.bind_zero fun m => by
    split
    · exact within_modifyEngine _
    · exact (broken_raise _).within 0

theorem within_pushFrame (frame : Frame) : Within 0 (pushFrame frame) :=
  within_get.bind_zero fun m => by
    dsimp only
    split
    · exact (broken_raise _).within 0
    · exact within_modifyEngine _

end ColonMachine.Machine
