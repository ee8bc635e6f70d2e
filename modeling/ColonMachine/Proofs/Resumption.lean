import ColonMachine.Proofs.Presentation

/-!
# Runs that are called off can be taken up again

A context can call off a run after any instruction.  Nothing is lost then: the session is kept in
the machine as a whole, and one more flush is all that the machine has gone through.  So a machine
that was called off is a twin of some machine that the session goes through when it is left alone:
it is still **heading** where it was (`Heads.halt`, `Heads.exec`), and the next run takes the
session up from there.

Every run executes an instruction before it asks its context.  So if the session ends when it is
left alone, it also ends after enough runs, with the same answer and the same machine
(`exists_resumed`, `run_resumes`).
-/

namespace ColonMachine

lemma Outlet.Took.content_eq {text : Text} {o o1 o2 : Outlet} (h : Took text o o1)
    (h' : Took text o o2) : o1.content = o2.content := by
  by_cases ho : o = .discard
  · rw [h.discard.mpr ho, h'.discard.mpr ho]
  · rw [h.content ho, h'.content ho]

namespace Console

variable {c₀ d₀ c d : Console}

/-- Flushing one of the consoles leaves them together. -/
lemma Together.flush_left (hc₀ : c₀.Firm) (h : Together c₀ d₀ c d) :
    c.flush.1 = none ∧ Together c₀ d₀ c.flush.2 d := by
  obtain ⟨text, hc, hd⟩ := h.heard
  have hreported : c.flush.2.reported = d.reported := h.reported
  have hoffered : c.flush.2.offered = d.offered := h.offered
  obtain ⟨c', hflush, hc', -⟩ := hc.flush hc₀
  rw [hflush] at hreported hoffered ⊢
  exact ⟨rfl, ⟨text, hc', hd⟩, hreported, hoffered⟩

/-- If both consoles are flushed, the same has arrived behind them. -/
lemma Together.received (h : Together c₀ c₀ c d) (hc : c.Flushed) (hd : d.Flushed) :
    c.outlets.map Outlet.received = d.outlets.map Outlet.received := by
  obtain ⟨text, hheard, hheard'⟩ := h.heard
  refine List.ext_getElem? fun i => ?_
  rw [List.getElem?_map, List.getElem?_map]
  by_cases hi : i ∈ c₀.route.outlets
  · cases ho : c₀.outlets[i]? with
    | none =>
        rw [List.getElem?_eq_none_iff] at ho
        rw [List.getElem?_eq_none (hheard.outlets.length.trans_le ho),
          List.getElem?_eq_none (hheard'.outlets.length.trans_le ho)]
    | some o =>
        obtain ⟨o1, ho1, htook⟩ := hheard.outlets.changed i hi o ho
        obtain ⟨o2, ho2, htook'⟩ := hheard'.outlets.changed i hi o ho
        rw [ho1, ho2, Option.map_some, Option.map_some, hc i (hheard.route ▸ hi) o1 ho1,
          hd i (hheard'.route ▸ hi) o2 ho2, htook.content_eq htook']
  · rw [hheard.outlets.same i hi, hheard'.outlets.same i hi]

end Console

namespace Machine

variable {α : Type} {c₀ : Console} {a a' m₀ : Machine} {f fuel : ℕ} {r : Result Bool}

/-! ## One run -/

/-- Left to itself, the machine comes to `r` after at most `f` instructions, and that is the end. -/
structure Finishes (f : ℕ) (r : Result Bool) (m : Machine) : Prop where
  exec : exec f .background m = r
  final : ∀ m', r ≠ .ok false m'

/-- The machine is the twin of one that comes to `r` when it is left to itself. -/
def Heads (c₀ : Console) (f : ℕ) (r : Result Bool) (a : Machine) : Prop :=
  ∃ b, Finishes f r b ∧ b.IsSound ∧ Twins (Console.Together c₀ c₀) a b

namespace Heads

lemma isSound (h : Heads c₀ f r a) : a.IsSound := by
  obtain ⟨b, -, hb, hab⟩ := h
  exact ⟨hab.engine ▸ hb.engine, hab.input ▸ hb.input⟩

lemma becomes (h : Heads c₀ f r a) (ha : Becomes a a.engine a') : Heads c₀ f r a' := by
  obtain ⟨b, hb, hsound, hab⟩ := h
  exact ⟨b, hb, hsound, hab.becomes ha (becomes_engine b b.engine)⟩

lemma stopped_of_zero (h : Heads c₀ 0 r a) : a.engine.running = false := by
  obtain ⟨b, ⟨hexec, hfinal⟩, -, hab⟩ := h
  by_contra hrunning
  have hb : b.engine.running = true := by rw [← hab.engine]; simpa using hrunning
  exact hfinal b (by simp [← hexec, exec, hb])

lemma stopped (h : Heads c₀ f r a) (hstopped : a.engine.running = false) :
    Matches (Console.Together c₀ c₀) (.ok true a) r := by
  obtain ⟨b, ⟨rfl, -⟩, -, hab⟩ := h
  rw [exec_stopped (hab.engine ▸ hstopped)]
  exact .ok true hab

variable (hc₀ : c₀.Firm)
include hc₀

/-- **The step lemma.**  An instruction brings the machine nearer to where it is heading. -/
lemma instruct (h : Heads c₀ (f + 1) r a) (hrunning : a.engine.running = true) :
    match instruct a with
    | .ok _ a' => Heads c₀ f r a'
    | .error i a' => Matches (Console.Together c₀ c₀) (.error i a') r := by
  obtain ⟨b, ⟨hexec, hfinal⟩, hb, hab⟩ := h
  have hrunning' : b.engine.running = true := hab.engine ▸ hrunning
  have hinstruct := composed_instruct.lockstep (Console.comparison_together hc₀ hc₀ rfl rfl) hab
  have htick := tick_eq .background b
  rw [bind_apply] at htick
  generalize Machine.instruct a = ra at hinstruct
  generalize Machine.instruct b = rb at hinstruct htick
  cases hinstruct with
  | @ok _ a1 b1 hab1 =>
      have hexec1 := exec_tick hrunning' htick f
      exact ⟨b1, ⟨hexec1.symm.trans hexec, hfinal⟩, (isSound_tick hb .background).of_ok htick, hab1⟩
  | raised hi hab1 =>
      rw [← hexec, exec_broken hrunning' htick]
      exact .raised hi hab1
  | halted cause hab1 ha1 hb1 =>
      rw [← hexec, exec_broken hrunning' htick]
      exact .halted cause hab1 ha1 hb1

/-- Halting only flushes, and the machine is heading for the same as before. -/
lemma halt (h : Heads c₀ f r a) (cause : Option Failure) :
    ∃ a', (halt cause : Act α) a = .error (.halt cause) a' ∧ Heads c₀ f r a' := by
  obtain ⟨b, hb, hsound, hab⟩ := h
  obtain ⟨hflush, hconsoles⟩ := hab.consoles.flush_left hc₀
  refine ⟨_, halt_of_none cause hflush, ?_⟩
  have hflushed : Heads c₀ f r { a with console := a.console.flush.2 } :=
    ⟨b, hb, hsound, hab.engine, hab.input, hconsoles⟩
  exact hflushed.becomes ((becomes_engine _ _).noted _ _)

/-- A run comes to where the machine is heading, or its context calls it off while the machine is
still heading there.  The induction is over the instructions that are left. -/
lemma exec (context : Context) (h : Heads c₀ f r a) (hle : f ≤ fuel) :
    Matches (Console.Together c₀ c₀) (exec fuel context a) r ∨
      ∃ n cause a' f', context = .endingAt n cause ∧
        exec fuel context a = .error (.halt (some cause)) a' ∧ f' < f ∧ Heads c₀ f' r a' := by
  induction f generalizing a context fuel with
  | zero =>
      have hstopped := h.stopped_of_zero
      rw [exec_stopped hstopped]
      exact Or.inl (h.stopped hstopped)
  | succ f ih =>
      by_cases hrunning : a.engine.running = true
      · obtain ⟨fuel, rfl⟩ := Nat.exists_eq_add_of_le' (Nat.le_of_add_left_le hle)
        have hstep := h.instruct hc₀ hrunning
        have htick := tick_eq context a
        rw [bind_apply] at htick
        cases hinstruct : Machine.instruct a with
        | error i a1 =>
            rw [hinstruct] at hstep htick
            rw [exec_broken hrunning htick]
            exact Or.inl hstep
        | ok _ a1 =>
            rw [hinstruct] at hstep htick
            rcases hask : context.ask.1 with _ | cause
            · simp only [hask] at htick
              rw [exec_tick hrunning htick]
              rcases ih context.ask.2 hstep (Nat.le_of_succ_le_succ hle) with
                hmatches | ⟨n, cause, a', f', hcontext, hhalted, hless, hheads⟩
              · exact Or.inl hmatches
              · obtain ⟨n, hn⟩ := Context.endingAt_of_next hcontext
                exact Or.inr ⟨n, cause, a', f', hn, hhalted, Nat.lt_succ_of_lt hless, hheads⟩
            · obtain ⟨n, hn⟩ := Context.endingAt_of_asked hask
              obtain ⟨a2, hhalt, hheads⟩ := hstep.halt (α := Unit) hc₀ (some cause)
              simp only [hask] at htick
              have hbroken := htick.trans (bind_of_error hhalt)
              exact Or.inr ⟨n, cause, a2, f, hn, exec_broken hrunning hbroken fuel,
                Nat.lt_succ_self f, hheads⟩
      · have hstopped : a.engine.running = false := by simpa using hrunning
        rw [exec_stopped hstopped]
        exact Or.inl (h.stopped hstopped)

end Heads

/-! ## Runs after runs -/

/-- The machine after `k` runs, each of them under a context of its own. -/
def rerun (fuel : ℕ) (contexts : ℕ → Context) (m : Machine) : ℕ → Machine
  | 0 => m
  | k + 1 => (run fuel (contexts k) (rerun fuel contexts m k)).2

/-- **The run lemma.**  The runs are called off until one of them comes to where the machine is
heading.  The induction is over the instructions that are left, since no run is called off before
its first one. -/
lemma exists_resumed {contexts : ℕ → Context} (hc₀ : c₀.Firm) (hle : f ≤ fuel)
    (hgenuine : ∀ k n cause, contexts k = .endingAt n cause → cause.Genuine) (j : ℕ)
    (h : Heads c₀ f r ((rerun fuel contexts m₀ j).indent true)) :
    ∃ k, (∀ i, j ≤ i → i < k → ∃ n cause, contexts i = .endingAt n cause ∧
        (run fuel (contexts i) (rerun fuel contexts m₀ i)).1 = .ended (some cause)) ∧
      (rerun fuel contexts m₀ k).IsSound ∧
      Matches (Console.Together c₀ c₀)
        (exec fuel (contexts k) ((rerun fuel contexts m₀ k).indent true)) r := by
  induction f using Nat.strongRecOn generalizing j with
  | _ f ih =>
    rcases h.exec hc₀ (contexts j) hle with
      hmatches | ⟨n, cause, a', f', hcontext, hhalted, hless, hheads⟩
    · exact ⟨j, fun i hi hlt => absurd hlt (Nat.not_lt.mpr hi), ⟨h.isSound.engine, h.isSound.input⟩,
        hmatches⟩
    · obtain ⟨m', hrun, hm'⟩ := run_of_halted hhalted
      have hnext : rerun fuel contexts m₀ (j + 1) = m' := by rw [rerun, hrun]
      have hheads' : Heads c₀ f' r ((rerun fuel contexts m₀ (j + 1)).indent true) := by
        rw [hnext]
        exact hheads.becomes ⟨hm'.engine, hm'.input, hm'.console⟩
      obtain ⟨k, hcalled, hrest⟩ := ih f' hless (hless.le.trans hle) (j + 1) hheads'
      refine ⟨k, fun i hi hlt => ?_, hrest⟩
      rcases Nat.eq_or_lt_of_le hi with rfl | hi
      · have hcause : cause.Genuine := hgenuine j n cause hcontext
        refine ⟨n, cause, hcontext, ?_⟩
        rw [hrun, Option.filter_some_pos (by simpa [Failure.Genuine] using hcause)]
      · exact hcalled i hi hlt

/-- **Calling off is transparent.**  Take a new machine with outlets that do not fail, whatever its
input, and suppose that its run ends.  Run such a machine again and again instead, under contexts
that call it off at any time, for reasons that are not taken for the end of the input.  Then the
runs answer with the reasons of their contexts until one of them answers as the run that was left
alone.  After that one, the engine and the source are the same as there, and the same has arrived
behind every outlet. -/
theorem run_resumes {settings : List Setting} {m₀ m : Machine} {enough fuel : ℕ}
    {failure? : Option Failure} (hnew : create settings = .ok m₀) (hreliable : m₀.console.Reliable)
    (hended : run enough .background m₀ = (.ended failure?, m)) (hfuel : enough ≤ fuel)
    (contexts : ℕ → Context)
    (hgenuine : ∀ k n cause, contexts k = .endingAt n cause → cause.Genuine) :
    ∃ k, (∀ j < k, ∃ n cause, contexts j = .endingAt n cause ∧
        (run fuel (contexts j) (rerun fuel contexts m₀ j)).1 = .ended (some cause)) ∧
      (run fuel (contexts k) (rerun fuel contexts m₀ k)).1 = .ended failure? ∧
      (rerun fuel contexts m₀ (k + 1)).engine = m.engine ∧
      (rerun fuel contexts m₀ (k + 1)).input = m.input ∧
      (rerun fuel contexts m₀ (k + 1)).console.outlets.map Outlet.received
        = m.console.outlets.map Outlet.received := by
  have hc₀ := firm_create hnew hreliable
  have hsound := (fresh_create hnew).isSound
  have hfinal : ∀ m', exec enough .background (m₀.indent true) ≠ .ok false m' := by
    intro m' hexec
    rw [run_of_unfinished hexec] at hended
    cases hended
  have hheads : Heads m₀.console enough (exec enough .background (m₀.indent true))
      (m₀.indent true) :=
    ⟨m₀.indent true, ⟨rfl, hfinal⟩, ⟨hsound.engine, hsound.input⟩, rfl, rfl,
      ⟨⟨[], hc₀.heard, hc₀.heard⟩, rfl, rfl⟩⟩
  obtain ⟨k, hcalled, hk, hmatches⟩ := exists_resumed hc₀ hfuel hgenuine 0 hheads
  obtain ⟨houtcome, htwins, hflushed⟩ :=
    ran_of_matches (Console.comparison_together hc₀ hc₀ rfl rfl) hk hmatches
  rw [hended] at houtcome htwins hflushed
  obtain ⟨hflushed, hflushed'⟩ := hflushed failure? houtcome
  exact ⟨k, fun j hj => hcalled j (Nat.zero_le j) hj, houtcome, htwins.engine, htwins.input,
    htwins.consoles.received hflushed hflushed'⟩

/-- A session that is called off after every single instruction. -/
theorem run_resumes_of_budgets :
    ∃ m₀ m, create [.written [] (.ok (utf8 "7 dup\n")), .output (.memory [])] = .ok m₀ ∧
      m₀.console.Reliable ∧ Failure.canceled.Genuine ∧ run 3 .background m₀ = (.ended none, m) ∧
      ∃ k, (run 5 (.endingAt 1 .canceled) (rerun 5 (fun _ => .endingAt 1 .canceled) m₀ k)).1
        = .ended none ∧
        (rerun 5 (fun _ => .endingAt 1 .canceled) m₀ (k + 1)).engine = m.engine := by
  obtain ⟨m₀, hnew⟩ :
      ∃ m₀, create [.written [] (.ok (utf8 "7 dup\n")), .output (.memory [])] = .ok m₀ :=
    ⟨_, rfl⟩
  have hreliable : m₀.console.Reliable := by
    cases hnew
    exact Console.reliable_of_memory rfl rfl
  have hgenuine : Failure.canceled.Genuine := by simp [Failure.Genuine, Failure.chain]
  have hnext : ∀ {a b : Machine} {i : Interrupt} {fuel : ℕ}, a.engine.running = true →
    step a = .ok () b →
      (∃ m, exec fuel .background b = .error i m) →
      ∃ m, exec (fuel + 1) .background a = .error i m := by
    rintro a b i fuel hrunning hstep ⟨m, hexec⟩
    exact ⟨m, (exec_tick hrunning (tick_of_ok hstep) fuel).trans hexec⟩
  have hhalt : ∀ {a b : Machine} {cause : Option Failure}, a.engine.running = true →
      step a = .error (.halt cause) b → ∃ m, exec 1 .background a = .error (.halt cause) m :=
    fun hrunning hstep => ⟨_, exec_broken hrunning (tick_of_halt hstep) 0⟩
  have hexec : ∃ m, exec 3 .background (m₀.indent true) = .error (.halt (some .endOfInput)) m := by
    cases hnew
    refine hnext rfl ((prompt_again rfl rfl).trans ((prompt_again rfl rfl).trans
      (prompt_ended rfl rfl))) ?_
    refine hnext rfl rfl ?_
    exact hhalt rfl (prompt_broken rfl rfl)
  obtain ⟨m1, hexec⟩ := hexec
  obtain ⟨m, hrun, -⟩ := run_of_halted hexec
  obtain ⟨k, -, hanswer, hengine, -⟩ := run_resumes hnew hreliable hrun (show 3 ≤ 5 by decide)
    (fun _ => .endingAt 1 .canceled) (by rintro k n cause ⟨⟩; exact hgenuine)
  exact ⟨m₀, m, hnew, hreliable, hgenuine, hrun, k, hanswer, hengine⟩

end Machine

end ColonMachine
