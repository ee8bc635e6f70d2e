import ColonMachine.Proofs.Course
import ColonMachine.Proofs.Lines
import ColonMachine.Proofs.Restraint

/-!
# Runs, one instruction after the other

What a run reaches does not depend on its context, as long as that lets it go on: a machine that
comes up in a run is one the run leads to without a context (`reaches_iff_leads`).  So a run can be
gone through instruction by instruction (`Reaches.induction`).

At the top level a run also goes on word by word, inside of one prompt instruction, and at the end
of a line the loop comes round to the next one.  `TopLevel.line` says that this is the top level of
the same run.
-/

namespace ColonMachine.Machine

variable {a b m m' m₀ : Machine} {context context' : Context} {fuel : ℕ} {stopped : Bool}

/-! ## Instructions -/

/-- An instruction after which the context lets the run go on is the same without a context. -/
lemma tick_background (h : tick context a = .ok context' b) :
    instruct a = .ok () b ∧ tick .background a = .ok .background b := by
  have hnone := tick_eq .background a
  rw [tick_eq] at h
  rcases hinstruct : instruct a with ⟨_, a1⟩ | ⟨i, a1⟩
  · rw [bind_of_ok hinstruct] at h hnone
    rcases hask : context.ask.1 with _ | cause
    · rw [hask] at h
      cases h
      exact ⟨rfl, hnone⟩
    · rw [hask] at h
      rcases hhalt : haltIf (some cause) a1 with ⟨_, a2⟩ | ⟨i, a2⟩
      · exact absurd hhalt (broken_halt _ _ _ _)
      · rw [bind_of_error hhalt] at h
        cases h
  · rw [bind_of_error hinstruct] at h
    cases h

lemma leads_of_tick (hrunning : a.engine.running = true) (h : tick context a = .ok context' b) :
    Leads a b :=
  ⟨1, exec_tick hrunning (tick_background h).2⟩

/-- One instruction of `exec`, if it completes. -/
lemma exec_succ_ok (h : exec (fuel + 1) context a = .ok stopped b) :
    b = a ∨ a.engine.running = true ∧
      ∃ context' a1, tick context a = .ok context' a1 ∧ exec fuel context' a1 = .ok stopped b := by
  rw [exec] at h
  dsimp only at h
  split_ifs at h with hrunning
  · refine Or.inr ⟨hrunning, ?_⟩
    rcases htick : tick context a with ⟨context', a1⟩ | ⟨i, a1⟩
    · rw [htick] at h
      exact ⟨context', a1, rfl, h⟩
    · rw [htick] at h
      cases h
  · cases h
    exact Or.inl rfl

lemma leads_of_exec (h : exec fuel context a = .ok stopped b) : Leads a b := by
  induction fuel generalizing a context with
  | zero =>
      cases h
      exact leads_refl b
  | succ fuel ih =>
      rcases exec_succ_ok h with rfl | ⟨hrunning, context', a1, htick, hexec⟩
      · exact leads_refl b
      · exact (leads_of_tick hrunning htick).trans (ih hexec)

/-- What has come to an end stays as it is. -/
lemma exec_more {r : Result Bool} (h : exec fuel .background a = r) (hr : ∀ b, r ≠ .ok false b)
    (more : ℕ) : exec (fuel + more) .background a = r := by
  induction fuel generalizing a with
  | zero =>
      cases hrunning : a.engine.running with
      | false => rwa [exec_stopped hrunning] at h ⊢
      | true => exact absurd h.symm (by simpa [exec, hrunning] using hr a)
  | succ fuel ih =>
      rw [Nat.succ_add]
      cases hrunning : a.engine.running with
      | false => rwa [exec_stopped hrunning] at h ⊢
      | true =>
          cases htick : tick .background a with
          | ok context a1 =>
              obtain rfl : context = .background := by
                rw [(tick_background htick).2] at htick
                cases htick
                rfl
              rw [exec_tick hrunning htick] at h ⊢
              exact ih h
          | error i a1 =>
              rw [exec_broken hrunning htick] at h ⊢
              exact h

lemma reaches_iff_leads : m₀.Reaches m ↔ Leads (m₀.indent true) m := by
  constructor
  · rintro ⟨fuel, context, stopped, hexec⟩
    exact leads_of_exec hexec
  · rintro ⟨n, hn⟩
    exact ⟨0 + n, .background, !m.engine.running, hn 0⟩

lemma Reaches.leads (h : m₀.Reaches a) (hleads : Leads a b) : m₀.Reaches b :=
  reaches_iff_leads.mpr ((reaches_iff_leads.mp h).trans hleads)

lemma Reaches.tick (h : m₀.Reaches a) (hrunning : a.engine.running = true)
    (htick : tick context a = .ok context' b) : m₀.Reaches b :=
  h.leads (leads_of_tick hrunning htick)

/-- **What every instruction of a run keeps, the run keeps.** -/
lemma Reaches.induction {P : Machine → Prop} (h : m₀.Reaches m) (hstart : P (m₀.indent true))
    (hkeep : ∀ a b, m₀.Reaches a → a.engine.running = true → instruct a = .ok () b → P a → P b) :
    P m := by
  obtain ⟨fuel, context, stopped, hexec⟩ := h
  have hreach : m₀.Reaches (m₀.indent true) := reaches_iff_leads.mpr (leads_refl _)
  -- the induction is over the instructions that are left, from any machine the run has come to
  generalize m₀.indent true = a at hexec hstart hreach
  induction fuel generalizing a context with
  | zero =>
      cases hexec
      exact hstart
  | succ fuel ih =>
      rcases exec_succ_ok hexec with rfl | ⟨hrunning, context', a1, htick, hexec'⟩
      · exact hstart
      · exact ih context' a1 hexec' (hkeep a a1 hreach hrunning (tick_background htick).1 hstart)
          (hreach.tick hrunning htick)

/-! ## The end of a run -/

lemma still_settle (failure : Failure) (m : Machine) : still (settle failure m).2 = still m := by
  have hnoted (message : Machine → Text) : still (m.noted (utf8 "!") message) = still m :=
    (restrained_note (utf8 "!") message).machine m
  rw [settle]
  dsimp only
  split
  · rfl
  · split_ifs
    · exact hnoted _
    · rfl
    · exact hnoted _
    · rfl

/-- What follows the last instruction of a run leaves the engine and the setting for prompts as they
are. -/
lemma still_run (fuel : ℕ) (context : Context) (m : Machine) :
    still (run fuel context m).2 = still (Result.machine (exec fuel context (m.indent true))) := by
  have hsettled :
      still (run fuel context m).2 = still (Result.machine (runOut fuel context m)) := by
    rw [run]
    rcases runOut fuel context m with ⟨_ | _, m1⟩ | ⟨i, m1⟩
    · rfl
    · rfl
    · dsimp only
      split
      · rfl
      · exact still_settle _ m1
  rw [hsettled]
  rcases hexec : exec fuel context (m.indent true) with ⟨stopped, m1⟩ | ⟨i, m1⟩
  · have hindented : execIndented fuel context m = .ok stopped (m1.indent false) := by
      rw [execIndented, hexec]
    cases stopped with
    | false => rw [runOut, bind_of_ok hindented]; rfl
    | true =>
        have hflush : Restrained still (speak Console.flush >>= haltIf >>= fun _ => pure true) :=
          ((restrained_speak _).bind restrained_haltIf).bind fun _ => restrained_pure true
        rw [runOut_of_stopped hindented]
        exact hflush.machine _
  · have hindented : execIndented fuel context m = .error i (m1.indent false) := by
      rw [execIndented, hexec]
    rw [runOut, bind_of_error hindented]
    rfl

lemma engine_run (fuel : ℕ) (context : Context) (m : Machine) :
    (run fuel context m).2.engine = (Result.machine (exec fuel context (m.indent true))).engine :=
  congrArg Prod.fst (still_run fuel context m)

/-! ## The top level -/

namespace TopLevel

/-- The prompt instruction that is under way. -/
lemma exists_step (h : TopLevel m₀ m) (hrunning : m.engine.running = true) :
    ∃ a, m₀.Reaches a ∧ a.engine.running = true ∧ step a = prompt m := by
  induction h with
  | @enter m m' hreach _ _ hm' hstep =>
      exact ⟨m, hreach, by rw [← hrunning, hm'.engine], hstep⟩
  | word _ hrunning' hread ih =>
      obtain ⟨a, hreach, ha, hstep⟩ := ih hrunning'
      exact ⟨a, hreach, ha, hstep.trans (prompt_again hrunning' hread)⟩

/-- After the end of a line the machine is at the top level again. -/
lemma line (h : TopLevel m₀ m) (hm₀ : m₀.IsSound) (hrunning : m.engine.running = true)
    (hover : LineOver m m') : TopLevel m₀ m' := by
  obtain ⟨-, m1, m2, hnext, hm2, hjump, hm', hprompt⟩ := hover
  obtain ⟨a, hreach, ha, hstep⟩ := h.exists_step hrunning
  have hengine : m1.engine = m.engine := ((talks_nextWord m).of_ok hnext).1
  have hended : step a = .ok () m1 := hstep.trans (prompt_ended hrunning (bind_of_ok hnext))
  have hm1 : m1.engine.running = true := by rw [hengine, hrunning]
  have hfn : m1.engine.fn = bootId := by
    rw [hengine]
    exact congrArg Control.fn (h.isSound hm₀).2
  have hreach2 : m₀.Reaches m2 :=
    hreach.leads ((leads_of_step ha hended).trans (leads_of_step hm1 hjump))
  exact .enter hreach2 (by rw [hm2.engine]; exact hfn) (by rw [hm2.engine]) hm' hprompt

lemma lines (h : TopLevel m₀ m) (hm₀ : m₀.IsSound) (hrunning : m.engine.running = true)
    (hovers : LinesOver m m') : TopLevel m₀ m' := by
  induction hovers with
  | refl => exact h
  | tail hovers hover ih => exact ih.line hm₀ (by rw [LinesOver.engine hovers, hrunning]) hover

end TopLevel

end ColonMachine.Machine
