import ColonMachine.Proofs.Honest
import ColonMachine.Proofs.Reflow
import ColonMachine.Proofs.Twins

/-!
# Presentation does not influence computation

Sessions are presented in one way or another: with prompts or without, with plain or with styled
diagnostics, traced or not, and to whatever outlets.  Two machines that differ in this alone are
twins under the comparison `Console.Apart`, which asks no more of two consoles than that their
output does not fail.  So they compute the same (`run_ignores_presentation`).

With the same prompts and the same style they are twins under `Console.Together` as well, under
which the same pieces are handed to both consoles, whatever is behind them.
-/

namespace ColonMachine

namespace Console

variable {c₀ d₀ c d : Console}

/-! ## Consoles that have nothing in common -/

/-- Each console has become what it is by writing something and flushing. -/
def Apart (c₀ d₀ c d : Console) : Prop := (∃ text, c₀.Heard text c) ∧ ∃ text, d₀.Heard text d

lemma both_apart {r r' : Option Failure × Console} (hr : ∃ text c, r = (none, c) ∧ c₀.Heard text c)
    (hr' : ∃ text d, r' = (none, d) ∧ d₀.Heard text d) : Both (Apart c₀ d₀) r r' := by
  obtain ⟨text, c, rfl, hc⟩ := hr
  obtain ⟨text', d, rfl, hd⟩ := hr'
  exact ⟨rfl, rfl, ⟨text, hc⟩, text', hd⟩

/-- What is marked as reported matters to prompts only. -/
lemma Heard.mark {text : Text} (h : c₀.Heard text c) (reported : Bool) :
    c₀.Heard text { c with reported } := ⟨h.route, h.settled, h.prompts, h.style, h.outlets⟩

lemma comparison_apart (hc₀ : c₀.Firm) (hd₀ : d₀.Firm) : Comparison (Apart c₀ d₀) where
  hand := by
    rintro c d ⟨⟨_, hc⟩, _, hd⟩ manner piece
    exact both_apart ⟨_, hc.hand hc₀ manner piece⟩ ⟨_, hd.hand hd₀ manner piece⟩
  prompt := by
    rintro c d ⟨⟨_, hc⟩, _, hd⟩ mode
    exact both_apart ⟨_, hc.write hc₀ _⟩ ⟨_, hd.write hd₀ _⟩
  dressed := by
    rintro c d ⟨⟨_, hc⟩, _, hd⟩ message
    exact both_apart ⟨_, hc.write hc₀ _⟩ ⟨_, hd.write hd₀ _⟩
  reported := by
    rintro c d ⟨⟨_, hc⟩, _, hd⟩ reported
    exact ⟨⟨_, hc.mark reported⟩, _, hd.mark reported⟩
  settle := by
    rintro c d ⟨⟨_, hc⟩, _, hd⟩
    exact both_apart ⟨_, hc.settle hc₀⟩ ⟨_, hd.settle hd₀⟩
  flush := by
    rintro c d ⟨⟨_, hc⟩, _, hd⟩
    obtain ⟨c', hflush, hc', hflushed⟩ := hc.flush hc₀
    obtain ⟨d', hflush', hd', hflushed'⟩ := hd.flush hd₀
    rw [hflush, hflush']
    exact ⟨both_apart ⟨_, c', rfl, hc'⟩ ⟨_, d', rfl, hd'⟩, hflushed, hflushed'⟩

/-! ## Consoles that are told the same -/

/-- Both consoles have been told the same. -/
structure Together (c₀ d₀ c d : Console) : Prop where
  heard : ∃ text, c₀.Heard text c ∧ d₀.Heard text d
  reported : c.reported = d.reported
  offered : c.offered = d.offered

lemma both_together {r r' : Option Failure × Console} {text : Text}
    (hr : ∃ c, r = (none, c) ∧ c₀.Heard text c) (hr' : ∃ d, r' = (none, d) ∧ d₀.Heard text d)
    (hreported : r.2.reported = r'.2.reported) (hoffered : r.2.offered = r'.2.offered) :
    Both (Together c₀ d₀) r r' := by
  obtain ⟨c, rfl, hc⟩ := hr
  obtain ⟨d, rfl, hd⟩ := hr'
  exact ⟨rfl, rfl, ⟨text, hc, hd⟩, hreported, hoffered⟩

section Together

variable (hc₀ : c₀.Firm) (hd₀ : d₀.Firm)
include hc₀ hd₀

lemma Together.hand (h : Together c₀ d₀ c d) (manner : Manner) (piece : Text) :
    Both (Together c₀ d₀) (c.hand manner piece) (d.hand manner piece) := by
  obtain ⟨text, hc, hd⟩ := h.heard
  exact both_together (hc.hand hc₀ manner piece) (hd.hand hd₀ manner piece) rfl
    (congrArg (piece :: ·) h.offered)

lemma Together.write (h : Together c₀ d₀ c d) (t : Text) :
    Both (Together c₀ d₀) (c.write t) (d.write t) := by
  rw [Console.write, Console.write]
  split_ifs
  · exact ⟨rfl, rfl, h⟩
  · exact h.hand hc₀ hd₀ .chars t

lemma comparison_together (hprompts : c₀.prompts = d₀.prompts) (hstyle : c₀.style = d₀.style) :
    Comparison (Together c₀ d₀) where
  hand h manner piece := h.hand hc₀ hd₀ manner piece
  prompt := by
    intro c d h mode
    obtain ⟨text, hc, hd⟩ := h.heard
    rw [showPrompt, showPrompt, hc.prompts, hd.prompts, hprompts, h.reported]
    exact h.write hc₀ hd₀ _
  dressed := by
    intro c d h message
    obtain ⟨text, hc, hd⟩ := h.heard
    rw [hc.style, hd.style, hstyle]
    exact h.write hc₀ hd₀ _
  reported := by
    intro c d h reported
    obtain ⟨text, hc, hd⟩ := h.heard
    exact ⟨⟨text, hc.mark reported, hd.mark reported⟩, rfl, h.offered⟩
  settle := by
    intro c d h
    obtain ⟨text, hc, hd⟩ := h.heard
    exact both_together (hc.settle hc₀) (hd.settle hd₀) h.reported h.offered
  flush := by
    intro c d h
    obtain ⟨text, hc, hd⟩ := h.heard
    obtain ⟨c', hflush, hc', hflushed⟩ := hc.flush hc₀
    obtain ⟨d', hflush', hd', hflushed'⟩ := hd.flush hd₀
    refine ⟨both_together ⟨c', hflush, hc'⟩ ⟨d', hflush', hd'⟩ h.reported h.offered, ?_, ?_⟩
    · rw [hflush]
      exact hflushed
    · rw [hflush']
      exact hflushed'

end Together

end Console

/-! ## New machines -/

namespace Machine

variable {α : Type} {R S : Console → Console → Prop} {a b a₀ b₀ : Machine}

lemma Twins.imp (h : Twins R a b) (hRS : ∀ c d, R c d → S c d) : Twins S a b :=
  ⟨h.engine, h.input, hRS _ _ h.consoles⟩

lemma Matches.imp {r r' : Result α} (h : Matches R r r') (hRS : ∀ c d, R c d → S c d) :
    Matches S r r' := by
  cases h with
  | ok x h => exact .ok x (h.imp hRS)
  | raised hi h => exact .raised hi (h.imp hRS)
  | halted cause h ha hb => exact .halted cause (h.imp hRS) ha hb

lemma Ran.imp {r r' : Outcome × Machine} (h : Ran R r r') (hRS : ∀ c d, R c d → S c d) :
    Ran S r r' :=
  ⟨h.outcome, h.machines.imp hRS, h.flushed⟩

/-- New machines with the same input and the same limit are twins. -/
lemma twins_create {settings settings' : List Setting} (ha₀ : create settings = .ok a₀)
    (hb₀ : create settings' = .ok b₀) (hqueue : a₀.input.queue = b₀.input.queue)
    (hlimit : a₀.engine.limit = b₀.engine.limit) (hR : R a₀.console b₀.console) :
    Twins R (a₀.indent true) (b₀.indent true) := by
  refine ⟨?_, ?_, hR⟩
  · change a₀.engine = b₀.engine
    rw [(fresh_create ha₀).engine, (fresh_create hb₀).engine, hlimit]
  · change a₀.input = b₀.input
    rw [(blank_create ha₀).1, (blank_create hb₀).1, hqueue]

/-- **Presentation does not influence computation.**  Two new machines may differ in their traces,
prompts, styles and outlets, none of which fails.  If they have the same input and the same limit,
then they go through the same engines and the same sources, instruction by instruction, and their
runs have the same answer.  If they also have the same prompts and the same style, then the same
pieces are handed to the output all the way, and when the runs end, all outlets of both have
received the same. -/
theorem run_ignores_presentation {settings settings' : List Setting} {a₀ b₀ : Machine}
    (ha₀ : create settings = .ok a₀) (hb₀ : create settings' = .ok b₀)
    (hqueue : a₀.input.queue = b₀.input.queue) (hlimit : a₀.engine.limit = b₀.engine.limit)
    (hreliable : a₀.console.Reliable) (hreliable' : b₀.console.Reliable) (fuel : ℕ)
    (context : Context) :
    Matches (fun _ _ => True) (exec fuel context (a₀.indent true))
      (exec fuel context (b₀.indent true)) ∧
      Ran (fun _ _ => True) (run fuel context a₀) (run fuel context b₀) ∧
      (a₀.console.prompts = b₀.console.prompts → a₀.console.style = b₀.console.style →
        Matches (fun c d => c.offered = d.offered) (exec fuel context (a₀.indent true))
          (exec fuel context (b₀.indent true)) ∧
        ∀ failure?, (run fuel context a₀).1 = .ended failure? →
          ∃ out, a₀.console.Received out (run fuel context a₀).2.console ∧
            b₀.console.Received out (run fuel context b₀).2.console) := by
  have hsound := (fresh_create ha₀).isSound
  have hfirm := firm_create ha₀ hreliable
  have hfirm' := firm_create hb₀ hreliable'
  have hapart := Console.comparison_apart hfirm hfirm'
  have hexec := lockstep_exec hapart fuel context
    (twins_create ha₀ hb₀ hqueue hlimit ⟨⟨[], hfirm.heard⟩, [], hfirm'.heard⟩)
  refine ⟨hexec.imp fun _ _ _ => trivial, (ran_of_matches hapart hsound hexec).imp fun _ _ _ =>
    trivial, ?_⟩
  intro hprompts hstyle
  obtain ⟨-, hreported, hoffered⟩ := blank_create ha₀
  obtain ⟨-, hreported', hoffered'⟩ := blank_create hb₀
  have htogether := Console.comparison_together hfirm hfirm' hprompts hstyle
  have hsame := lockstep_exec htogether fuel context
    (twins_create ha₀ hb₀ hqueue hlimit ⟨⟨[], hfirm.heard, hfirm'.heard⟩,
      hreported.trans hreported'.symm, hoffered.trans hoffered'.symm⟩)
  refine ⟨hsame.imp fun _ _ h => h.offered, fun failure? hended => ?_⟩
  obtain ⟨-, ⟨-, -, ⟨out, hheard, hheard'⟩, -, -⟩, hflushed⟩ :=
    ran_of_matches htogether hsound hsame
  obtain ⟨hflushed, hflushed'⟩ := hflushed failure? hended
  exact ⟨out, hheard.received hflushed, hheard'.received hflushed'⟩

/-- A session as it is by default, another one without prompts and with styled diagnostics, and a
third that is traced and copied. -/
theorem run_ignores_presentation_of_style :
    ∃ a₀ b₀ c₀, create [.input { name := [], lines := [utf8 "1 . +\n"] } none, .output (.memory [])]
        = .ok a₀ ∧
      create [.prompts .off, .style (utf8 "!" ++ ·),
        .input { name := [], lines := [utf8 "1 . +\n"] } none, .output (.memory [])] = .ok b₀ ∧
      create [.input { name := [], lines := [utf8 "1 . +\n"] } none, .output (.memory []), .trace,
        .tee (.memory [])] = .ok c₀ ∧
      (∀ fuel context, Ran (fun _ _ => True) (run fuel context a₀) (run fuel context b₀)) ∧
      ∀ fuel context, Matches (fun c d => c.offered = d.offered)
        (exec fuel context (a₀.indent true))
        (exec fuel context (c₀.indent true)) := by
  obtain ⟨a₀, ha⟩ : ∃ a₀, create [.input { name := [], lines := [utf8 "1 . +\n"] } none,
      .output (.memory [])] = .ok a₀ := ⟨_, rfl⟩
  obtain ⟨b₀, hb⟩ : ∃ b₀, create [.prompts .off, .style (utf8 "!" ++ ·),
      .input { name := [], lines := [utf8 "1 . +\n"] } none, .output (.memory [])] = .ok b₀ :=
      ⟨_, rfl⟩
  obtain ⟨c₀, hc⟩ : ∃ c₀, create [.input { name := [], lines := [utf8 "1 . +\n"] } none,
      .output (.memory []), .trace, .tee (.memory [])] = .ok c₀ := ⟨_, rfl⟩
  obtain ⟨hqueue, hlimit⟩ :
      a₀.input.queue = b₀.input.queue ∧ a₀.engine.limit = b₀.engine.limit := by
    cases ha
    cases hb
    exact ⟨rfl, rfl⟩
  obtain ⟨hqueue', hlimit', hprompts, hstyle⟩ : a₀.input.queue = c₀.input.queue ∧
      a₀.engine.limit = c₀.engine.limit ∧ a₀.console.prompts = c₀.console.prompts ∧
      a₀.console.style = c₀.console.style := by
    cases ha
    cases hc
    exact ⟨rfl, rfl, rfl, rfl⟩
  have ha' : a₀.console.Reliable := by
    cases ha
    exact Console.reliable_of_memory rfl rfl
  have hb' : b₀.console.Reliable := by
    cases hb
    exact Console.reliable_of_memory rfl rfl
  have hc' : c₀.console.Reliable := by
    cases hc
    intro i hi o ho
    rcases List.mem_cons.mp hi with rfl | hi
    · cases ho
      exact trivial
    · cases List.mem_singleton.mp hi
      cases ho
      exact trivial
  refine ⟨a₀, b₀, c₀, ha, hb, hc, fun fuel context => ?_, fun fuel context => ?_⟩
  · exact (run_ignores_presentation ha hb hqueue hlimit ha' hb' fuel context).2.1
  · exact ((run_ignores_presentation ha hc hqueue' hlimit' ha' hc' fuel context).2.2 hprompts
      hstyle).1

end Machine

end ColonMachine
