import ColonMachine.Proofs.Onward
import ColonMachine.Proofs.Resumption

/-!
# Input in instalments

A session that has come to the end of its input can be fed and run again.  Compare it with a session
that has all the input from the start.  As long as the first one has something to read, it is only
**short** of the later streams (`Machine.Short`): engines and consoles go together, and the sources
differ in what is queued behind.  Every action keeps this, unless it finds the source dry
(`Composed.short`, by an induction over what actions are made of).

When the prompt itself finds the source dry, the machine has done nothing but read.  So if it is fed
then, it reads the same as the other one, which goes on to the later streams in the same read
(`nextWord_dry`).  Run again, it finishes the loop, begins the prompt instruction once more, and
from there the two are twins.

Prompts have to be off: they are shown for the last stream of the queue, and the two do not agree on
which one that is.
-/

namespace ColonMachine

open Console (Together)

namespace Source

variable {c₀ c d : Console} {mode : Mode} {src : Source} {later queue : List Stream}

/-- The source with further streams behind the ones it has. -/
def before (later : List Stream) (src : Source) : Source := { src with queue := src.queue ++ later }

/-- No stream that is left to be read fails. -/
structure Unfailing (src : Source) : Prop where
  queue : ∀ stream ∈ src.queue, stream.failure = none
  current : ∀ stream, src.current = some stream → stream.failure = none

/-- Beginning a queue of streams forgets what was queued and what was being read. -/
lemma readQueued_forget {ε : Type} (hooks : Hooks ε) (queue queue' : List Stream)
    (current : Option Stream) (src : Source) (env : ε) :
    readQueued hooks queue { src with queue := queue', current } env
      = readQueued hooks queue src env := by
  cases queue <;> rfl

/-- What comes of reading a line, with and without further streams behind: the same line, or in one
case nothing and in the other the first line of the later streams. -/
inductive LineShort (c₀ : Console) (later : List Stream) (mode : Mode)
    (buffer : Option (List Text)) :
    Option Failure × Source × Console → Option Failure × Source × Console → Prop where
  | line {src : Source} {c d : Console} (h : Together c₀ c₀ c d) (hsrc : src.Unfailing) :
      LineShort c₀ later mode buffer (none, src, c) (none, src.before later, d)
  | dry {src : Source} {c d : Console} (h : Together c₀ c₀ c d) (hqueue : src.queue = [])
      (hcurrent : src.current = none) (hbuffer : src.buffer = buffer) :
      LineShort c₀ later mode buffer (some .endOfInput, src, c)
        (readQueued (Console.hooks mode) later src d)

section Steady

variable (hc₀ : c₀.Steady)
include hc₀

lemma announce_together (mode : Mode) (src src' : Source) (h : Together c₀ c₀ c d) :
    Both (Together c₀ c₀) (src.announce (Console.hooks mode) c)
      (src'.announce (Console.hooks mode) d) := by
  obtain ⟨text, hc, hd⟩ := h.heard
  rw [Console.announce_off (hc.prompts.trans hc₀.prompts),
    Console.announce_off (hd.prompts.trans hc₀.prompts)]
  exact (Console.comparison_together hc₀.toFirm hc₀.toFirm rfl rfl).settle h

lemma short_readOn {stream : Stream} (hsrc : (src.begun stream src.queue).Unfailing)
    (h : Together c₀ c₀ c d)
    (hqueued : ∀ {c d}, Together c₀ c₀ c d → LineShort c₀ later mode src.buffer
      (readQueued (Console.hooks mode) src.queue src c)
      (readQueued (Console.hooks mode) (src.queue ++ later) (src.before later) d)) :
    LineShort c₀ later mode src.buffer (src.readOn (Console.hooks mode) stream c)
      ((src.before later).readOn (Console.hooks mode) stream d) := by
  obtain ⟨hleft, hright, hannounced⟩ := announce_together hc₀ mode src (src.before later) h
  rw [readOn, readOn, attempt, attempt]
  generalize src.announce (Console.hooks mode) c = left at hleft hannounced
  generalize (src.before later).announce (Console.hooks mode) d = right at hright hannounced
  obtain ⟨_, c1⟩ := left
  obtain ⟨_, d1⟩ := right
  cases hleft
  cases hright
  have hstream : stream.failure = none := hsrc.current stream rfl
  rcases hlines : stream.lines with _ | ⟨line, rest⟩
  · rw [hstream]
    exact hqueued hannounced
  · have hrest : (src.take stream line rest).Unfailing := by
      refine ⟨hsrc.queue, ?_⟩
      rintro _ ⟨⟩
      exact hstream
    exact .line hannounced hrest

/-- The induction is over the streams that come before the later ones. -/
lemma short_readQueued (hqueue : ∀ stream ∈ queue, stream.failure = none) (h : Together c₀ c₀ c d) :
    LineShort c₀ later mode src.buffer (readQueued (Console.hooks mode) queue src c)
      (readQueued (Console.hooks mode) (queue ++ later) (src.before later) d) := by
  induction queue generalizing src c d with
  | nil =>
      have hsame : readQueued (Console.hooks mode) ([] ++ later) (src.before later) d
          = readQueued (Console.hooks mode) later { src with queue := [], current := none } d :=
        (readQueued_forget _ _ (src.queue ++ later) src.current src d).trans
          (readQueued_forget _ _ [] none src d).symm
      rw [hsame]
      exact .dry h rfl rfl rfl
  | cons stream queue ih =>
      obtain ⟨hstream, hqueue⟩ := List.forall_mem_cons.mp hqueue
      rw [List.cons_append, readQueued_cons, readQueued_cons]
      have hbegun :
          ((src.begun stream queue).begun stream (src.begun stream queue).queue).Unfailing := by
        refine ⟨hqueue, ?_⟩
        rintro _ ⟨⟩
        exact hstream
      exact short_readOn hc₀ hbegun h fun h => ih hqueue h

lemma short_readLine (hsrc : src.Unfailing) (h : Together c₀ c₀ c d) :
    LineShort c₀ later mode src.buffer (src.readLine (Console.hooks mode) c)
      ((src.before later).readLine (Console.hooks mode) d) := by
  rcases hcurrent : src.current with _ | stream
  · rw [readLine_of_none hcurrent,
      readLine_of_none (show (src.before later).current = none from hcurrent)]
    exact short_readQueued hc₀ hsrc.queue h
  · rw [readLine_of_some hcurrent,
      readLine_of_some (show (src.before later).current = some stream from hcurrent)]
    refine short_readOn hc₀ ⟨hsrc.queue, ?_⟩ h fun h => short_readQueued hc₀ hsrc.queue h
    rintro _ ⟨⟩
    exact hsrc.current stream hcurrent

/-- What comes of reading a word: the same on both sides, or one source is dry and the other one
reads as if it had been dry and then fed. -/
lemma short_nextWord (later : List Stream) (mode : Mode) (hsrc : src.Unfailing)
    (h : Together c₀ c₀ c d) :
    (∃ word src' c' d', src.nextWord (Console.hooks mode) c = (.ok word, src', c') ∧
      (src.before later).nextWord (Console.hooks mode) d = (.ok word, src'.before later, d') ∧
      src'.Unfailing ∧ Together c₀ c₀ c' d') ∨
    ∃ src' c' d', src.nextWord (Console.hooks mode) c = (.error .endOfInput, src', c') ∧
      (src.before later).nextWord (Console.hooks mode) d
        = (src'.before later).nextWord (Console.hooks mode) d' ∧
      src'.queue = [] ∧ src'.buffer = none ∧ Together c₀ c₀ c' d' := by
  have hpop :
      ∀ src : Source, (src.before later).popWord = (src.popWord.1, src.popWord.2.before later) := by
    intro src
    rcases hbuffer : src.buffer with _ | _ | ⟨word, words⟩ <;> simp [popWord, before, hbuffer]
  have hkept : ∀ {src : Source}, src.Unfailing → src.popWord.2.Unfailing := by
    intro src hsrc
    rcases hbuffer : src.buffer with _ | _ | ⟨word, words⟩ <;> simp only [popWord, hbuffer] <;>
      exact ⟨hsrc.queue, hsrc.current⟩
  rw [nextWord, nextWord]
  by_cases hempty : src.isEmpty = true
  · rw [if_pos hempty, if_pos (show (src.before later).isEmpty = true from hempty)]
    have hline : LineShort c₀ later mode src.buffer (src.readLine (Console.hooks mode) c)
        ((src.before later).readLine (Console.hooks mode) d) := short_readLine hc₀ hsrc h
    generalize src.readLine (Console.hooks mode) c = left at hline
    generalize hright : (src.before later).readLine (Console.hooks mode) d = right at hline
    cases hline with
    | @line src1 c1 d1 h1 hsrc1 =>
        refine Or.inl ⟨src1.popWord.1, src1.popWord.2, c1, d1, rfl, ?_, hkept hsrc1, h1⟩
        dsimp only
        rw [hpop]
    | @dry src1 c1 d1 h1 hqueue hcurrent hbuffer =>
        have hnone : src.buffer = none := by simpa [isEmpty] using hempty
        have hbuffer1 : (src1.before later).buffer = none := hbuffer.trans hnone
        have hread : (src1.before later).readLine (Console.hooks mode) d1
            = readQueued (Console.hooks mode) later src1 d1 := by
          rw [readLine_of_none (show (src1.before later).current = none from hcurrent)]
          simp only [before, hqueue, List.nil_append]
          exact readQueued_forget _ _ later src1.current src1 d1
        refine Or.inr ⟨src1, c1, d1, rfl, ?_, hqueue, hbuffer1, h1⟩
        rw [nextWord, if_pos (by simp [isEmpty, hbuffer1]), hread]
  · rw [if_neg hempty, if_neg (show ¬ (src.before later).isEmpty = true from hempty), hpop]
    exact Or.inl ⟨_, _, c, d, rfl, rfl, hkept hsrc, h⟩

end Steady

end Source

/-! ## Actions -/

namespace Machine

variable {α β : Type} {c₀ : Console} {later : List Stream} {a b m₀ b₀ : Machine}

/-- The machine `a` is `b` without the later streams. -/
structure Short (c₀ : Console) (later : List Stream) (a b : Machine) : Prop where
  engine : a.engine = b.engine
  input : b.input = a.input.before later
  consoles : Together c₀ c₀ a.console b.console
  unfailing : a.input.Unfailing

/-- The same has come of an action in both machines, or `a` was halted since its input has ended. -/
inductive Sequel (c₀ : Console) (later : List Stream) : Result α → Result α → Prop where
  | ok (x : α) {a b : Machine} (h : Short c₀ later a b) : Sequel c₀ later (.ok x a) (.ok x b)
  | raised {i : Interrupt} {a b : Machine} (hi : ∀ cause, i ≠ .halt cause)
      (h : Short c₀ later a b) :
      Sequel c₀ later (.error i a) (.error i b)
  | dry (a : Machine) (r : Result α) : Sequel c₀ later (.error (.halt (some .endOfInput)) a) r

/-- The action keeps machines as they are apart from the later streams. -/
def KeepsShort (c₀ : Console) (later : List Stream) (act : Act α) : Prop :=
  ∀ ⦃a b⦄, Short c₀ later a b → Sequel c₀ later (act a) (act b)

lemma Short.noted (h : Short c₀ later a b) (mark : Text) (message : Machine → Text) :
    Short c₀ later (noted mark message a) (noted mark message b) := by
  refine ⟨?_, ?_, ?_, ?_⟩
  · rw [engine_noted, engine_noted, h.engine]
  · rw [input_noted, input_noted, h.input]
  · rw [console_noted, console_noted]
    exact h.consoles
  · rw [input_noted]
    exact h.unfailing

lemma Sequel.bind {act act' : Act α} {next : α → Act β} (h : Sequel c₀ later (act a) (act' b))
    (hnext : ∀ x, KeepsShort c₀ later (next x)) :
    Sequel c₀ later ((act >>= next) a) ((act' >>= next) b) := by
  rw [bind_apply, bind_apply]
  generalize act a = ra at h
  generalize act' b = rb at h
  cases h with
  | ok x hab => exact hnext x hab
  | raised hi hab => exact .raised hi hab
  | dry => exact .dry _ _

namespace KeepsShort

lemma bind {act : Act α} {next : α → Act β} (h : KeepsShort c₀ later act)
    (hnext : ∀ x, KeepsShort c₀ later (next x)) : KeepsShort c₀ later (act >>= next) :=
  fun _ _ hab => (h hab).bind hnext

lemma attempt {act : Act α} (h : KeepsShort c₀ later act) : KeepsShort c₀ later (attempt act) := by
  intro a b hab
  have hact := h hab
  rw [ColonMachine.attempt, ColonMachine.attempt]
  generalize act a = ra at hact
  generalize act b = rb at hact
  cases hact with
  | ok x hab => exact .ok _ hab
  | @raised i _ _ hi hab =>
      cases i with
      | fault what => exact .ok _ hab
      | halt cause => exact absurd rfl (hi cause)
      | panic payload => exact .raised hi hab
      | abandon => exact .raised hi hab
  | dry => exact .dry _ _

/-- The induction is over what is left to be read on the short side. -/
lemma loop {body : Act (Option α)} {act : Act α} (h : KeepsShort c₀ later body)
    (hrepeats : Repeats body act) : KeepsShort c₀ later act := by
  intro a b hab
  induction hpending : a.pending using Nat.strongRecOn generalizing a b with
  | _ n ih =>
    have hbody := h hab
    generalize ha : body a = ra at hbody
    generalize hb : body b = rb at hbody
    cases hbody with
    | ok x hab1 =>
        cases x with
        | none =>
            obtain ⟨hagain, hless⟩ := hrepeats.again ha
            rw [hagain, (hrepeats.again hb).1]
            exact ih _ (hpending ▸ hless) hab1 rfl
        | some x =>
            rw [hrepeats.done ha, hrepeats.done hb]
            exact .ok x hab1
    | raised hi hab1 =>
        rw [hrepeats.broken ha, hrepeats.broken hb]
        exact .raised hi hab1
    | dry a1 =>
        rw [hrepeats.broken ha]
        exact .dry a1 _

end KeepsShort

lemma short_modify {f : Machine → Machine} (hf : ∀ a b, Short c₀ later a b →
    Short c₀ later (f a) (f b)) :
    KeepsShort c₀ later (modify f : Act Unit) := fun a b hab => .ok () (hf a b hab)

lemma short_note (mark : Text) (message : Machine → Text) :
    KeepsShort c₀ later (note mark message) :=
  short_modify fun _ _ hab => hab.noted mark message

lemma short_speak {act act' : Console → Option Failure × Console} (hab : Short c₀ later a b)
    (h : Both (Together c₀ c₀) (act a.console) (act' b.console)) :
    Sequel c₀ later ((speak act >>= haltIf) a) ((speak act' >>= haltIf) b) := by
  obtain ⟨hleft, hright, hconsoles⟩ := h
  rw [bind_apply, bind_apply, speak, speak]
  simp only [hleft, hright]
  exact .ok () ⟨hab.engine, hab.input, hconsoles, hab.unfailing⟩

section Steady

variable (hc₀ : c₀.Steady)
include hc₀

lemma short_write (t : Text) : KeepsShort c₀ later (write t) :=
  fun _ _ hab => short_speak hab (hab.consoles.write hc₀.toFirm hc₀.toFirm t)

lemma short_report (message : Text) : KeepsShort c₀ later (report message) := by
  have hR := Console.comparison_together hc₀.toFirm hc₀.toFirm rfl rfl
  refine KeepsShort.bind (short_note _ _) fun _ a b hab => ?_
  rw [get_bind, get_bind]
  refine (short_speak hab (hR.dressed hab.consoles message)).bind fun _ => ?_
  refine (short_write hc₀ _).bind fun _ => (short_modify ?_).bind fun _ => short_modify ?_
  · exact fun _ _ hab => ⟨hab.engine, hab.input, hR.reported hab.consoles true, hab.unfailing⟩
  · exact fun _ _ hab => ⟨hab.engine, by rw [hab.input]; rfl, hab.consoles, hab.unfailing.queue,
      hab.unfailing.current⟩

/-- Reading a word, where `a` may find its source dry. -/
lemma short_word (hab : Short c₀ later a b) :
    (∃ word a' b', nextWord a = .ok word a' ∧ nextWord b = .ok word b' ∧ Short c₀ later a' b') ∨
    ∃ a' b', nextWord a = .error (.halt (some .endOfInput)) a' ∧ nextWord b = nextWord b' ∧
      a'.engine = a.engine ∧ a'.input.queue = [] ∧ a'.input.buffer = none ∧
      Twins (Together c₀ c₀) { a' with input := a'.input.before later } b' := by
  rcases Source.short_nextWord hc₀ later a.engine.mode hab.unfailing hab.consoles with
    ⟨word, src, c, d, ha, hb, hsrc, hcd⟩ | ⟨src, c, d, ha, hb, hqueue, hbuffer, hcd⟩
  · have hread : Short c₀ later { a with input := src, console := c }
        { b with engine := a.engine, input := src.before later, console := d } :=
        ⟨rfl, rfl, hcd, hsrc⟩
    rw [nextWord_eq, nextWord_eq, ha, ← hab.engine, hab.input, hb]
    cases word with
    | none => exact Or.inl ⟨none, _, _, rfl, rfl, hread⟩
    | some word => exact Or.inl ⟨some word, _, _, rfl, rfl, hread.noted _ _⟩
  · obtain ⟨hflush, hflushed⟩ := hcd.flush_left hc₀.toFirm
    have hdry : nextWord a = halt (some .endOfInput) { a with input := src, console := c } := by
      rw [nextWord_eq, ha]
      rfl
    refine Or.inr ⟨_, { b with input := src.before later, console := d },
      hdry.trans (halt_of_none _ hflush), ?_, ?_, ?_, ?_, ?_⟩
    · rw [nextWord_eq, nextWord_eq, ← hab.engine, hab.input, hb]
    · exact engine_noted ..
    · rw [input_noted]
      exact hqueue
    · rw [input_noted]
      exact hbuffer
    · refine ⟨(engine_noted ..).trans hab.engine, ?_, ?_⟩
      · dsimp only
        rw [input_noted]
      · dsimp only
        rw [console_noted]
        exact hflushed

/-- **The step lemma.**  Whatever is done, the machine stays short of the later streams until its
source is dry. -/
lemma Composed.short {act : Act α} (h : Composed act) : KeepsShort c₀ later act := by
  induction h with
  | pure x => exact fun _ _ hab => .ok x hab
  | bind _ _ ih ihnext => exact ih.bind ihnext
  | look hsame _ ih =>
      intro a b hab
      rw [get_bind, get_bind, hsame a b hab.engine (by rw [hab.input]; rfl)]
      exact ih b hab
  | throw hi => exact fun _ _ hab => .raised hi hab
  | engine f =>
      exact short_modify fun _ _ hab =>
        ⟨congrArg f hab.engine, hab.input, hab.consoles, hab.unfailing⟩
  | prompting on =>
      exact short_modify fun _ _ hab => ⟨hab.engine, by rw [hab.input]; rfl, hab.consoles,
        hab.unfailing.queue, hab.unfailing.current⟩
  | note mark message => exact short_note mark message
  | write t => exact short_write hc₀ t
  | print t =>
      exact fun _ _ hab => short_speak hab (hab.consoles.hand hc₀.toFirm hc₀.toFirm .bytes t)
  | report message => exact short_report hc₀ message
  | nextWord =>
      intro a b hab
      rcases short_word hc₀ hab with ⟨word, a', b', ha, hb, hab'⟩ | ⟨a', b', ha, -⟩
      · rw [ha, hb]
        exact .ok word hab'
      · rw [ha]
        exact .dry a' _
  | attempt _ ih => exact ih.attempt
  | loop _ hrepeats ih => exact ih.loop hrepeats

/-! ## Runs -/

/-- What one session reaches, the other one reaches too. -/
lemma Reaches.short {m : Machine} (h : m₀.Reaches m)
    (hstart : Short c₀ later (m₀.indent true) (b₀.indent true)) :
    ∃ b, b₀.Reaches b ∧ Short c₀ later m b := by
  refine h.induction (P := fun m => ∃ b, b₀.Reaches b ∧ Short c₀ later m b)
    ⟨_, reaches_iff_leads.mpr (leads_refl _), hstart⟩ ?_
  rintro a a1 - hrunning hinstruct ⟨b, hreach, hab⟩
  have hsequel := composed_instruct.short hc₀ hab
  have htick := tick_eq .background b
  rw [bind_apply] at htick
  rw [hinstruct] at hsequel
  generalize instruct b = rb at hsequel htick
  cases hsequel with
  | @ok _ _ b1 hab1 => exact ⟨b1, hreach.tick (hab.engine ▸ hrunning) htick, hab1⟩

lemma TopLevel.short {m : Machine} (h : TopLevel m₀ m) (hm₀ : m₀.IsSound)
    (hstart : Short c₀ later (m₀.indent true) (b₀.indent true)) :
    ∃ b, TopLevel b₀ b ∧ Short c₀ later m b := by
  induction h with
  | @enter m m' hreach hfn hpc hm' _ =>
      obtain ⟨b, hreach', hab⟩ := hreach.short hc₀ hstart
      have hboot := (isSound_of_reaches hm₀ hreach).engine.get?_boot
      rw [hab.engine] at hfn hpc hboot
      obtain ⟨b', hb', hstep⟩ := step_prompt ⟨hboot, hfn, hpc⟩
      refine ⟨b', .enter hreach' hfn hpc hb' hstep, ?_, ?_, ?_, ?_⟩
      · rw [hm'.engine, hb'.engine, hab.engine]
      · rw [hm'.input, hb'.input, hab.input]
      · rw [hm'.console, hb'.console]
        exact hab.consoles
      · rw [hm'.input]
        exact hab.unfailing
  | word _ hrunning hread ih =>
      obtain ⟨b, htop, hab⟩ := ih
      have hsequel := composed_read.short hc₀ hab
      rw [hread] at hsequel
      generalize hb : read b = rb at hsequel
      cases hsequel with
      | @ok _ _ b' hab' => exact ⟨b', htop.word (hab.engine ▸ hrunning) hb, hab'⟩

end Steady

/-- If the next instruction comes to the same in both machines, so does all that follows. -/
lemma matches_exec_of_step {R : Console → Console → Prop} (hR : Comparison R)
    (ha : a.engine.running = true) (hb : b.engine.running = true) (h : Matches R (step a) (step b))
    (fuel : ℕ) : Matches R (exec (fuel + 1) .background a) (exec (fuel + 1) .background b) := by
  have hinstruct : Matches R (instruct a) (instruct b) := by
    refine h.attempt.bind fun outcome => ?_
    cases outcome with
    | ok _ => exact (Composed.pure ()).lockstep hR
    | error what => exact (composed_recover what).lockstep hR
  have htick : Matches R (tick .background a) (tick .background b) := by
    rw [tick_eq, tick_eq]
    exact hinstruct.bind fun _ _ _ hab => .ok _ hab
  rw [exec_bind ha, exec_bind hb]
  exact htick.bind fun context => lockstep_exec hR fuel context

/-- The run over the first streams has ended in `m2`, in the prompt instruction of `m1`, whose own
read has found the source dry.  When it is fed and run again, it comes to the same as the run over
all streams. -/
lemma exec_fed {m1 m2 m' : Machine} (hc₀ : c₀.Steady) (hm₀ : m₀.IsSound)
    (hstart : Short c₀ later (m₀.indent true) (b₀.indent true)) (htop : TopLevel m₀ m1)
    (hrunning : m1.engine.running = true)
    (hdry : nextWord m1 = .error (.halt (some .endOfInput)) m2) (hengine : m'.engine = m2.engine)
    (hinput : m'.input = m2.input.before later) (hconsole : m'.console = m2.console) :
    m'.IsSound ∧
      ∃ n, ∀ fuel, Matches (Together c₀ c₀) (exec (fuel + 2) .background (m'.indent true))
      (exec (fuel + n) .background (b₀.indent true)) := by
  have hR := Console.comparison_together hc₀.toFirm hc₀.toFirm rfl rfl
  obtain ⟨hsound, hcontrol⟩ := htop.isSound hm₀
  obtain ⟨b1, htop', hab⟩ := htop.short hc₀ hm₀ hstart
  have hb1 : b1.engine.running = true := hab.engine ▸ hrunning
  obtain ⟨b, hreach, hb, hstep⟩ := htop'.exists_step hb1
  obtain ⟨n, hn⟩ := reaches_iff_leads.mp hreach
  rcases short_word hc₀ hab with
    ⟨word, a', _, ha, -⟩ | ⟨a', b2, ha, hnext, hengine2, -, hbuffer, htwins⟩
  · rw [hdry] at ha
    cases ha
  rw [hdry] at ha
  cases ha
  have hengine' : (m'.indent true).engine = m1.engine := hengine.trans hengine2
  have hb2 : b2.engine.running = true := by rw [← htwins.engine]; exact hengine2 ▸ hrunning
  have hprompt : prompt b1 = prompt b2 :=
    prompt_congr hb1 hb2 (by rw [read, bind_apply, bind_apply, hnext])
  -- the jump of the loop, and the prompt instruction again
  have hboot := hsound.engine.get?_boot
  have hfn : m1.engine.fn = bootId := congrArg Control.fn hcontrol
  have hpc : m1.engine.pc = 0 := congrArg Control.pc hcontrol
  rw [← hengine'] at hboot hfn hpc hrunning
  obtain ⟨m3, hm3, hjump⟩ := step_jump ⟨hboot, hfn, hpc⟩
  obtain ⟨m4, hm4, hagain⟩ := step_prompt (m := m3)
    ⟨by rw [hm3.engine]; exact hboot, by rw [hm3.engine]; exact hfn, by rw [hm3.engine]⟩
  have hm3' : m3.engine.running = true := by rw [hm3.engine]; exact hrunning
  have htwins' : Twins (Together c₀ c₀) m4 b2 := by
    refine ⟨?_, ?_, ?_⟩
    · rw [hm4.engine, hm3.engine, ← htwins.engine]
      dsimp only
      rw [← hpc]
      exact hengine
    · rw [hm4.input, hm3.input, ← htwins.input]
      exact hinput
    · rw [hm4.console, hm3.console]
      exact hconsole ▸ htwins.consoles
  refine ⟨⟨?_, ?_⟩, 1 + n, fun fuel => ?_⟩
  · rw [hengine, hengine2]
    exact hsound.engine
  · rw [hinput]
    exact Source.tidy_of_buffer_none hbuffer
  · rw [← Nat.add_assoc, hn, exec_tick hrunning (tick_of_ok hjump) (fuel + 1)]
    refine matches_exec_of_step hR hm3' hb ?_ fuel
    rw [hagain, hstep, hprompt]
    exact composed_prompt.lockstep hR htwins'

end Machine

/-! ## Feeding -/

namespace Setting

/-- The settings that queue streams, each with what is to be closed for it. -/
def queued (later : List (Stream × Option Closer)) : List Setting :=
  later.map fun entry => .input entry.1 entry.2

lemma applyAll_queued (later : List (Stream × Option Closer)) (m : Machine) :
    applyAll m (queued later) = .ok { m with
      input := m.input.before (later.map Prod.fst)
      closers := m.closers ++ later.flatMap fun entry => entry.2.toList } := by
  induction later generalizing m with
  | nil => simp [queued, applyAll, Source.before]
  | cons entry later ih =>
      rw [queued, List.map_cons, applyAll, apply]
      · simp only [applyOne]
        exact (ih _).trans (by simp [Machine.feed, Source.feed, Source.before])
      · simp

end Setting

namespace Machine

lemma create_queued {settings : List Setting} {m₀ : Machine} (hnew : create settings = .ok m₀)
    (later : List (Stream × Option Closer)) :
    create (settings ++ Setting.queued later) = .ok { m₀ with
      input := m₀.input.before (later.map Prod.fst)
      closers := m₀.closers ++ later.flatMap fun entry => entry.2.toList } := by
  rw [create_eq_applyAll] at hnew
  cases happly : Setting.applyAll initial settings with
  | error failure =>
      rw [happly] at hnew
      cases hnew
  | ok m1 =>
      rw [happly] at hnew
      cases hnew
      rw [create_eq_applyAll, Setting.applyAll_append, happly, Except.bind, Setting.applyAll_queued]
      rfl

/-- **Input may arrive in instalments.**  Take a new machine without prompts whose streams and
outlets do not fail, and suppose that its run has ended since the prompt itself, reading a word at
the top level, has come to the end of all input.  Queue later streams then and run it again.  This
comes to the same as one run of a new machine to which all the streams were given at the start: the
outcome, the engine and the source are the same, and when the runs end, so is what has arrived
behind every outlet. -/
theorem run_in_instalments {settings : List Setting} {m₀ m m1 m2 : Machine} {enough : ℕ}
    (hnew : create settings = .ok m₀) (hreliable : m₀.console.Reliable)
    (hprompts : m₀.console.prompts = .off)
    (hunfailing : ∀ stream ∈ m₀.input.queue, stream.failure = none)
    (hrun : run enough .background m₀ = (.ended none, m)) (htop : TopLevel m₀ m1)
    (hrunning : m1.engine.running = true)
    (hdry : nextWord m1 = .error (.halt (some .endOfInput)) m2)
    (later : List (Stream × Option Closer)) :
    ∃ m' b₀, Setting.applyAll m (Setting.queued later) = .ok m' ∧
      create (settings ++ Setting.queued later) = .ok b₀ ∧
      ∃ n, ∀ fuel, (run (fuel + 2) .background m').1 = (run (fuel + n) .background b₀).1 ∧
        (run (fuel + 2) .background m').2.engine = (run (fuel + n) .background b₀).2.engine ∧
        (run (fuel + 2) .background m').2.input = (run (fuel + n) .background b₀).2.input ∧
        ∀ failure?, (run (fuel + 2) .background m').1 = .ended failure? →
          (run (fuel + 2) .background m').2.console.outlets.map Outlet.received
            = (run (fuel + n) .background b₀).2.console.outlets.map Outlet.received := by
  have hc₀ := steady_create hnew hreliable hprompts
  have hsound := (fresh_create hnew).isSound
  refine ⟨_, _, Setting.applyAll_queued later m, create_queued hnew later, ?_⟩
  have hstart : Short m₀.console (later.map Prod.fst) (m₀.indent true)
      (({ m₀ with
        input := m₀.input.before (later.map Prod.fst)
        closers :=
          m₀.closers ++ later.flatMap fun entry => entry.2.toList } : Machine).indent true) := by
    refine ⟨rfl, rfl, ⟨⟨[], hc₀.toFirm.heard, hc₀.toFirm.heard⟩, rfl, rfl⟩, hunfailing, ?_⟩
    intro stream hcurrent
    rw [show (m₀.indent true).input.current = none from (fresh_create hnew).current] at hcurrent
    cases hcurrent
  -- the run has ended in the read that found the source dry
  obtain ⟨a, hreach, ha, hstep⟩ := htop.exists_step hrunning
  have hhalt : step a = .error (.halt (some .endOfInput)) m2 :=
    hstep.trans (prompt_broken hrunning (bind_of_error hdry))
  obtain ⟨n, hn⟩ := reaches_iff_leads.mp hreach
  have hexec : exec enough .background (m₀.indent true) = .error (.halt (some .endOfInput)) m2 := by
    have hfinal : ∀ b, exec enough .background (m₀.indent true) ≠ .ok false b := by
      intro b hunfinished
      rw [run_of_unfinished hunfinished] at hrun
      cases hrun
    rw [← exec_more rfl hfinal (1 + n), ← Nat.add_assoc, hn]
    exact exec_broken ha (tick_of_halt hhalt) enough
  obtain ⟨_, hrun', hm⟩ := run_of_halted hexec
  rw [hrun] at hrun'
  cases hrun'
  set fed : Machine := { m with
    input := m.input.before (later.map Prod.fst)
    closers := m.closers ++ later.flatMap fun entry => entry.2.toList }
  have hengine : fed.engine = m2.engine := hm.engine
  obtain ⟨hfed, n', hmatches⟩ := exec_fed hc₀ hsound hstart htop hrunning hdry hengine
    (congrArg (Source.before (later.map Prod.fst)) hm.input) hm.console
  refine ⟨n', fun fuel => ?_⟩
  obtain ⟨houtcome, htwins, hflushed⟩ := ran_of_matches
    (Console.comparison_together hc₀.toFirm hc₀.toFirm rfl rfl) hfed (hmatches fuel)
  refine ⟨houtcome, htwins.engine, htwins.input, fun failure? hended => ?_⟩
  obtain ⟨hleft, hright⟩ := hflushed failure? hended
  exact htwins.consoles.received hleft hright

/-- A definition that is begun in one instalment and closed in the next one. -/
theorem run_in_instalments_of_definition :
    ∃ m₀ m m' b₀, create [.prompts .off, .written [] (.ok (utf8 ": f 1\n")), .output (.memory [])]
      = .ok m₀ ∧ m₀.console.Reliable ∧ m₀.console.prompts = .off ∧
      run 3 .background m₀ = (.ended none, m) ∧ m.engine.defining = some 16 ∧
      Setting.applyAll m (Setting.queued [(.ofText [] (utf8 "2 ; f + .\n"), none)]) = .ok m' ∧
      create ([.prompts .off, .written [] (.ok (utf8 ": f 1\n")), .output (.memory [])]
        ++ Setting.queued [(.ofText [] (utf8 "2 ; f + .\n"), none)]) = .ok b₀ ∧
      ∃ n, ∀ fuel, (run (fuel + 2) .background m').1 = (run (fuel + n) .background b₀).1 ∧
        (run (fuel + 2) .background m').2.engine = (run (fuel + n) .background b₀).2.engine := by
  obtain ⟨m₀, hnew⟩ : ∃ m₀, create [.prompts .off, .written [] (.ok (utf8 ": f 1\n")),
      .output (.memory [])] = .ok m₀ := ⟨_, rfl⟩
  have hreliable : m₀.console.Reliable := by
    cases hnew
    exact Console.reliable_of_memory rfl rfl
  have hprompts : m₀.console.prompts = .off := by
    cases hnew
    rfl
  have hunfailing : ∀ stream ∈ m₀.input.queue, stream.failure = none := by
    cases hnew
    decide
  obtain ⟨a, hline, b, hjump, m1, hprompt, m2, hdry, hb, hm₀, ha, hrunningb, hrunning, hopen⟩ :
      ∃ a, step (m₀.indent true) = .ok () a ∧ ∃ b, step a = .ok () b ∧ ∃ m1, step b = prompt m1 ∧
      ∃ m2, nextWord m1 = .error (.halt (some .endOfInput)) m2 ∧
        (b.engine.fn = bootId ∧ b.engine.pc = -1 ∧ Becomes b { b.engine with pc := 0 } m1) ∧
        (m₀.indent true).engine.running = true ∧ a.engine.running = true ∧ b.engine.running = true ∧
        m1.engine.running = true ∧ m2.engine.defining = some 16 := by
    cases hnew
    refine ⟨_,
      (prompt_again rfl (read_of_word (w := utf8 ":") rfl ((dispatch_of_call rfl rfl rfl).trans
      (bind_of_ok (define_new (nextName_of_word rfl) rfl))))).trans ((prompt_again rfl rfl).trans
        (prompt_ended rfl rfl)), ?_⟩
    iterate 3 refine ⟨_, rfl, ?_⟩
    exact ⟨⟨rfl, rfl, rfl, rfl, rfl⟩, rfl, rfl, rfl, rfl, rfl⟩
  have hleads : Leads (m₀.indent true) b := (leads_of_step hm₀ hline).trans (leads_of_step ha hjump)
  have htop : TopLevel m₀ m1 := .enter (reaches_iff_leads.mpr hleads) hb.1 hb.2.1 hb.2.2 hprompt
  have hhalt : step b = .error (.halt (some .endOfInput)) m2 :=
    hprompt.trans (prompt_broken hrunning (bind_of_error hdry))
  have hexec : exec 3 .background (m₀.indent true) = .error (.halt (some .endOfInput)) m2 := by
    rw [exec_tick hm₀ (tick_of_ok hline), exec_tick ha (tick_of_ok hjump)]
    exact exec_broken hrunningb (tick_of_halt hhalt) 0
  obtain ⟨m, hrun, hm⟩ := run_of_halted hexec
  obtain ⟨m', b₀, hfed, hcreated, n, hsame⟩ :=
    run_in_instalments hnew hreliable hprompts hunfailing hrun
    htop hrunning hdry [(.ofText [] (utf8 "2 ; f + .\n"), none)]
  exact ⟨m₀, m, m', b₀, hnew, hreliable, hprompts, hrun, by rw [hm.engine, hopen], hfed,
    hcreated, n, fun fuel => ⟨(hsame fuel).1, (hsame fuel).2.1⟩⟩

end Machine

end ColonMachine
