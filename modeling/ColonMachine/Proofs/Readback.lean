import ColonMachine.Proofs.Composition
import ColonMachine.Proofs.RoundTrip
import Mathlib.Logic.Relation

/-!
# Printed stacks read back

`..` prints the data stack as decimal numbers between brackets.  Without the brackets this is a line
of words, and each of the words is read as the number that it was made from (`Stack.words_typed`),
unless a function has such a name.  So a machine that reads the line pushes the numbers in the order
in which they were printed, bottom first (`prompt_numbers`), and if its stack was empty it has the
printed one then.
-/

namespace ColonMachine

/-! ## The line -/

namespace Stack

/-- What stands between the brackets. -/
def typed (s : Stack) : Text := s.reverse.flatMap fun n => Text.ofInt n.toInt ++ [Text.space]

/-- The numbers of a stack as words, bottom first. -/
def numerals (s : Stack) : List Text := s.reverse.map fun n => Text.ofInt n.toInt

lemma shown_eq (s : Stack) : s.shown = utf8 "[ " ++ s.typed ++ utf8 "]\n" := rfl

/-- The words of a line that has a space after each number. -/
lemma words_flatMap (ns : List Int32) (rest : Text) :
    Text.words ((ns.flatMap fun n => Text.ofInt n.toInt ++ [Text.space]) ++ rest)
      = ns.map (fun n => Text.ofInt n.toInt) ++ rest.words := by
  induction ns with
  | nil => rfl
  | cons n ns ih =>
      have hword := Text.isWord_ofInt n.toInt
      simp only [List.flatMap_cons, List.append_assoc, List.cons_append, List.nil_append,
        List.map_cons]
      rw [Text.words_append _ (by decide) (by decide), hword.words_eq, ih]
      rfl

/-- **The words of the line are the numbers.** -/
lemma words_typed (s : Stack) : Text.words (s.typed ++ [Text.newline]) = s.numerals := by
  rw [typed, words_flatMap, numerals]
  exact List.append_nil _

lemma lines_typed (s : Stack) :
    Text.lines (s.typed ++ [Text.newline]) = [s.typed ++ [Text.newline]] := by
  refine Text.lines_append_newline ?_ []
  simp only [typed, List.mem_flatMap, List.mem_append, List.mem_singleton, not_exists,
    not_and, not_or]
  exact fun n _ => ⟨(Text.isWord_ofInt n.toInt).newline_notMem, by decide⟩

end Stack

namespace Source

variable {ε : Type} {hooks : Hooks ε} {src : Source} {stream : Stream} {env env' : ε}

/-- Nothing is left but perhaps the end of the current line, and no stream fails. -/
def UsedUp (src : Source) : Prop :=
  src.buffered = [] ∧ ∀ stream ∈ src.current.toList ++ src.queue, stream.lines = [] ∧
    stream.failure = none

/-- At the end of a stream that is not the last one, there is a flush, and the next one is begun. -/
lemma readOn_of_end (hlines : stream.lines = []) (hfailure : stream.failure = none)
    (hqueue : src.queue ≠ []) (hflush : hooks.flush env = (none, env')) :
    src.readOn hooks stream env = readQueued hooks src.queue src env' := by
  have hannounce : src.announce hooks env = (none, env') := by
    rw [announce, if_neg (by simp [hqueue]), hflush]
  rw [readOn, attempt, hannounce, hlines, hfailure]

end Source

/-! ## Printing and reading -/

namespace Machine

variable {m m' b : Machine} {c : Console} {s : Stack}

/-- `..` is what it was when the machine was made, and prints the stack. -/
lemma dispatch_printStack (h : Sound m.engine) (hmode : m.engine.mode = .execute) :
    dispatch (utf8 "..") m = (do write m.engine.stack.shown; return true : Act Bool) m := by
  obtain ⟨f, hf, hname, himmediate, hcode, hnative⟩ : ∃ f, Dictionary.initial.get? 1 = some f ∧
      f.name = utf8 ".." ∧ f.immediate = false ∧ f.code = [] ∧
      f.native = some (.primitive .printStack) :=
    ⟨_, rfl, rfl, rfl, rfl, rfl⟩
  rw [← h.get?_builtin (by decide)] at hf
  have hlookup : lookup? m.engine.dict (utf8 "..") = some (1, f) := by
    rw [← hname, lookup?_name h hf]
  rw [dispatch_of_call hlookup himmediate hmode, bind_apply, call_primitive hf hcode hnative,
    Function.isNative, hcode, bind_apply]
  rfl

lemma readCell_numeral (n : Int32) : Text.readCell (Text.ofInt n.toInt) = .ok n := by
  rw [Text.readCell_ofInt n.le_toInt n.toInt_lt, Int32.ofInt_toInt]

lemma dispatch_numeral {n : Int32} (hmode : m.engine.mode = .execute)
    (hfree : m.engine.dict.find? (Text.ofInt n.toInt) = none) :
    dispatch (Text.ofInt n.toInt) m
      = .ok true { m with engine := { m.engine with stack := n :: m.engine.stack } } :=
  dispatch_of_number (by simp [lookup?, hfree]) (readCell_numeral n) hmode

/-- **A line of numbers pushes them.**  The induction is over the words of the line. -/
lemma prompt_numbers (ns : List Int32) (hrunning : m.engine.running = true)
    (hmode : m.engine.mode = .execute)
    (hfree : ∀ n ∈ ns, m.engine.dict.find? (Text.ofInt n.toInt) = none)
    (hbuffer : m.input.buffer = some (ns.map fun n => Text.ofInt n.toInt)) :
    ∃ m', prompt m = .ok () m' ∧
      m'.engine = { m.engine with stack := ns.reverse ++ m.engine.stack } ∧
      m'.console = m.console := by
  induction ns generalizing m with
  | nil =>
      obtain ⟨m', hnext, hengine, hconsole, -⟩ := nextWord_of_mark hbuffer
      exact ⟨m', prompt_ended hrunning (bind_of_ok hnext), hengine, hconsole⟩
  | cons n ns ih =>
      obtain ⟨m1, hnext, hengine, hconsole, hinput⟩ := nextWord_of_word hbuffer
      have hdispatch := dispatch_numeral (m := m1) (n := n) (by rw [hengine, hmode])
        (by rw [hengine]; exact hfree n List.mem_cons_self)
      set m2 : Machine :=
        { m1 with engine := { m1.engine with stack := n :: m1.engine.stack } } with hm2
      have hengine2 : m2.engine = { m.engine with stack := n :: m.engine.stack } := by
        rw [hm2, hengine]
      obtain ⟨m', hprompt, hengine', hconsole'⟩ := ih (m := m2) (by rw [hengine2]; exact hrunning)
        (by rw [hengine2]; exact hmode)
        (fun k hk => by rw [hengine2]; exact hfree k (List.mem_cons_of_mem n hk))
          (by rw [hm2, hinput])
      refine ⟨m', (prompt_again hrunning (read_of_word hnext hdispatch)).trans hprompt, ?_,
        hconsole'.trans hconsole⟩
      rw [hengine', hengine2]
      simp

/-- The machine is at its top level, between two lines, and runs words. -/
structure AtTop (m : Machine) : Prop where
  boot : AtBoot m (-1) ∨ AtBoot m 0
  running : m.engine.running = true
  mode : m.engine.mode = .execute

lemma AtBoot.moved {pc pc' : ℤ} {b' : Machine} (h : AtBoot b pc)
    (hb' : Becomes b { b.engine with pc := pc' } b') :
    AtBoot b' pc' :=
  ⟨by rw [hb'.engine]; exact h.function, by rw [hb'.engine]; exact h.fn, by rw [hb'.engine]⟩

/-- At most the end of the current line is left of it, and the line that the machine reads after it
is `line`; its console is `c` then. -/
def LineNext (line : Text) (m : Machine) (c : Console) : Prop :=
  m.input.buffered = [] ∧ LineAhead line { m with input := { m.input with buffer := none } } c

/-- One instruction is executed, and completed. -/
def Completes (m m' : Machine) : Prop := m.engine.running = true ∧ step m = .ok () m'

/-- The line is read in one instruction. -/
lemma step_typed (hboot : AtBoot b (-1)) (hrunning : b.engine.running = true)
    (hmode : b.engine.mode = .execute) (hempty : b.engine.stack = [])
    (hfree : ∀ n ∈ s, b.engine.dict.find? (Text.ofInt n.toInt) = none)
    (hline : LineAhead (s.typed ++ [Text.newline]) b c) :
    ∃ b', step b = .ok () b' ∧ b'.engine = { b.engine with pc := 0, stack := s } ∧
      b'.console = c := by
  obtain ⟨p, hp, hstep⟩ := step_prompt hboot
  obtain ⟨src, hbuffer, hnext⟩ := hline.exists_nextWord hp rfl
  set p1 : Machine := { p with input := src, console := c } with hp1
  have hrunning1 : p1.engine.running = true := by
    rw [hp1]; dsimp only; rw [hp.engine]; exact hrunning
  have hmode1 : p1.engine.mode = .execute := by rw [hp1]; dsimp only; rw [hp.engine]; exact hmode
  have hprompt : prompt p = prompt p1 :=
    prompt_congr hrunning1 hrunning1 (by rw [read, bind_apply, bind_apply, hnext])
  rw [Stack.words_typed] at hbuffer
  have hfree1 : ∀ n ∈ s.reverse, p1.engine.dict.find? (Text.ofInt n.toInt) = none := by
    intro n hn
    rw [hp1]
    dsimp only
    rw [hp.engine]
    exact hfree n (List.mem_reverse.mp hn)
  obtain ⟨b', hline', hengine, hconsole⟩ :=
    prompt_numbers s.reverse hrunning1 hmode1 hfree1 hbuffer
  refine ⟨b', hstep.trans (hprompt.trans hline'), ?_, hconsole⟩
  rw [hengine, hp1]
  dsimp only
  rw [hp.engine, List.reverse_reverse]
  simp [hempty]

/-- From the top level, the loop comes round to the line if it has to. -/
lemma AtTop.reads_typed (h : AtTop b) (hempty : b.engine.stack = [])
    (hfree : ∀ n ∈ s, b.engine.dict.find? (Text.ofInt n.toInt) = none)
    (hline : LineAhead (s.typed ++ [Text.newline]) b c) :
    ∃ b', Relation.ReflTransGen Completes b b' ∧ b'.engine = { b.engine with pc := 0, stack := s } ∧
      b'.console = c := by
  rcases h.boot with hboot | hboot
  · obtain ⟨b', hstep, hengine, hconsole⟩ := step_typed hboot h.running h.mode hempty hfree hline
    exact ⟨b', .single ⟨h.running, hstep⟩, hengine, hconsole⟩
  · obtain ⟨b1, hb1, hjump⟩ := step_jump hboot
    have hrunning1 : b1.engine.running = true := by rw [hb1.engine]; exact h.running
    have hline1 : LineAhead (s.typed ++ [Text.newline]) b1 c := by
      rw [LineAhead, hb1.engine, hb1.input, hb1.console]
      exact hline
    obtain ⟨b', hstep, hengine, hconsole⟩ :=
      step_typed (hboot.moved hb1) hrunning1 (by rw [hb1.engine]; exact h.mode)
      (by rw [hb1.engine]; exact hempty) (by rw [hb1.engine]; exact hfree) hline1
    refine ⟨b', .tail (.single ⟨h.running, hjump⟩) ⟨hrunning1, hstep⟩, ?_, hconsole⟩
    rw [hengine, hb1.engine]

/-- The end of the current line is met in one instruction. -/
lemma step_mark (hboot : AtBoot b (-1)) (hrunning : b.engine.running = true)
    (hbuffer : b.input.buffer = some []) :
    ∃ b', step b = .ok () b' ∧ b'.engine = { b.engine with pc := 0 } ∧ b'.console = b.console ∧
      b'.input = { b.input with buffer := none } := by
  obtain ⟨p, hp, hstep⟩ := step_prompt hboot
  obtain ⟨b', hnext, hengine, hconsole, hinput⟩ :=
    nextWord_of_mark (m := p) (by rw [hp.input, hbuffer])
  rw [hp.engine] at hengine
  rw [hp.console] at hconsole
  rw [hp.input] at hinput
  have hended := prompt_ended (by rw [hp.engine]; exact hrunning) (bind_of_ok hnext)
  exact ⟨b', hstep.trans hended, hengine, hconsole, hinput⟩

/-- The end of the current line may still have to be met.  Then the loop comes round to meet it, and
once more. -/
lemma AtTop.reads_typed_after (h : AtTop b) (hempty : b.engine.stack = [])
    (hfree : ∀ n ∈ s, b.engine.dict.find? (Text.ofInt n.toInt) = none)
    (hline : LineNext (s.typed ++ [Text.newline]) b c) :
    ∃ b', Relation.ReflTransGen Completes b b' ∧ b'.engine = { b.engine with pc := 0, stack := s } ∧
      b'.console = c := by
  obtain ⟨hbuffered, hline⟩ := hline
  rcases hbuffer : b.input.buffer with _ | words
  · refine h.reads_typed hempty hfree ?_
    rwa [← hbuffer] at hline
  obtain rfl : words = [] := by simpa [Source.buffered, hbuffer] using hbuffered
  -- the loop comes to where the end of the line is met
  obtain ⟨b1, hreach, hboot, hb1⟩ : ∃ b1, Relation.ReflTransGen Completes b b1 ∧ AtBoot b1 (-1) ∧
      Becomes b { b.engine with pc := -1 } b1 := by
    rcases h.boot with hboot | hboot
    · exact ⟨b, .refl, hboot, by rw [← hboot.counter], rfl, rfl⟩
    · obtain ⟨b1, hb1, hjump⟩ := step_jump hboot
      exact ⟨b1, .single ⟨h.running, hjump⟩, hboot.moved hb1, hb1⟩
  have hrunning1 : b1.engine.running = true := by rw [hb1.engine]; exact h.running
  obtain ⟨b2, hstep, hengine2, hconsole2, hinput2⟩ :=
    step_mark hboot hrunning1 (by rw [hb1.input, hbuffer])
  rw [hb1.engine] at hengine2
  have hline2 : LineAhead (s.typed ++ [Text.newline]) b2 c := by
    rw [LineAhead, hengine2, hinput2, hconsole2, hb1.input, hb1.console]
    exact hline
  have htop2 : AtTop b2 := by
    refine ⟨Or.inr ⟨?_, ?_, by rw [hengine2]⟩, ?_, ?_⟩ <;> rw [hengine2]
    · exact h.boot.elim AtBoot.function AtBoot.function
    · exact h.boot.elim AtBoot.fn AtBoot.fn
    · exact h.running
    · exact h.mode
  obtain ⟨b', hreach', hengine, hconsole⟩ := htop2.reads_typed (by rw [hengine2]; exact hempty)
    (by rw [hengine2]; exact hfree) hline2
  refine ⟨b', (hreach.tail ⟨hrunning1, hstep⟩).trans hreach', ?_, hconsole⟩
  rw [hengine, hengine2]

/-! ## Feeding the line -/

/-- What is fed behind streams that are at their end is read next.  Before that nothing is written
but perhaps a prompt.  The induction is over these streams. -/
lemma readQueued_of_usedUp {c₀ : Console} {line : Text} {stream : Stream} {queue : List Stream}
    (hqueue : ∀ s ∈ queue, s.lines = [] ∧ s.failure = none) (hline : stream.lines = [line])
    (hc₀ : c₀.Firm) (hc : c₀.Heard [] c) (mode : Mode) (src : Source) :
    ∃ asked c' src', Source.readQueued (Console.hooks mode) (queue ++ [stream]) src c
        = (none, Source.take src' stream line [], c') ∧ c₀.Heard asked c' ∧
      (asked = [] ∨ asked = c₀.prompts.of mode ∨
      asked = (c₀.prompts.of mode).dropLead [Text.newline]) := by
  induction queue generalizing src c with
  | nil =>
      obtain ⟨asked, c', hannounce, hheard, hasked⟩ :=
        hc.announce_prompting hc₀ mode (src.begun stream [])
      refine ⟨asked, c', src.begun stream [], ?_, hheard, hasked⟩
      rw [List.nil_append, Source.readQueued_cons, Source.readOn, Source.attempt, hannounce, hline]
  | cons first queue ih =>
      obtain ⟨hlines, hfailure⟩ := hqueue first List.mem_cons_self
      obtain ⟨c1, hsettle, hc1⟩ := hc.settle hc₀
      obtain ⟨asked, c', src', hread, hrest⟩ :=
        ih (fun s hs => hqueue s (List.mem_cons_of_mem _ hs)) hc1
        (src.begun first (queue ++ [stream]))
      refine ⟨asked, c', src', ?_, hrest⟩
      rw [List.cons_append, Source.readQueued_cons,
        Source.readOn_of_end hlines hfailure (by simp [Source.begun]) hsettle]
      exact hread

lemma lineNext_feed {line : Text} (name : Text) (hline : line.lines = [line])
    (hused : b.input.UsedUp) (hfirm : b.console.Firm) :
    ∃ c asked, LineNext line (b.feed (.ofText name line)) c ∧ b.console.Heard asked c ∧
      (asked = [] ∨ asked = b.console.prompts.of b.engine.mode ∨
        asked = (b.console.prompts.of b.engine.mode).dropLead [Text.newline]) := by
  obtain ⟨hbuffered, hstreams⟩ := hused
  set src : Source := { b.input.feed (.ofText name line) with buffer := none } with hsrc
  have hqueue : ∀ s ∈ b.input.queue, s.lines = [] ∧ s.failure = none :=
    fun s hs => hstreams s (List.mem_append_right _ hs)
  obtain ⟨asked, c, src', hread, hheard, hasked⟩ : ∃ asked c src',
      src.readLine (Console.hooks b.engine.mode) b.console
        = (none, Source.take src' (.ofText name line) line [], c) ∧ b.console.Heard asked c ∧
      (asked = [] ∨ asked = b.console.prompts.of b.engine.mode ∨
        asked = (b.console.prompts.of b.engine.mode).dropLead [Text.newline]) := by
    cases hcurrent : b.input.current with
    | none =>
        rw [Source.readLine_of_none (show src.current = none from hcurrent)]
        exact readQueued_of_usedUp hqueue hline hfirm hfirm.heard b.engine.mode src
    | some first =>
        obtain ⟨hlines, hfailure⟩ := hstreams first (by simp [hcurrent])
        obtain ⟨c1, hsettle, hc1⟩ := hfirm.heard.settle hfirm
        rw [Source.readLine_of_some (show src.current = some first from hcurrent),
          Source.readOn_of_end hlines hfailure (by simp [hsrc, Source.feed]) hsettle]
        exact readQueued_of_usedUp hqueue hline hfirm hc1 b.engine.mode src
  exact ⟨c, asked, ⟨hbuffered, rfl, src', .ofText name line, [], hread⟩, hheard, hasked⟩

/-- **Printed stacks read back.**  What `..` prints, without its brackets, is one line; a machine at
its top level with an empty stack that reads this line has the printed stack then, and nothing is
written meanwhile, unless one of the numbers is the name of a function.  In particular this is so if
the line is fed to a machine that has used up its input. -/
theorem printed_stack_reads_back (s : Stack) :
    (∀ a : Machine, Sound a.engine → a.engine.mode = .execute → a.engine.stack = s →
      dispatch (utf8 "..") a = (do write s.shown; return true : Act Bool) a) ∧
    ∃ body, s.shown = utf8 "[ " ++ body ++ utf8 "]\n" ∧
      Text.lines (body ++ [Text.newline]) = [body ++ [Text.newline]] ∧
      ∀ b : Machine, AtTop b → b.engine.stack = [] →
        (∀ n ∈ s, b.engine.dict.find? (Text.ofInt n.toInt) = none) →
        (∀ c, LineNext (body ++ [Text.newline]) b c → ∃ b', Relation.ReflTransGen Completes b b' ∧
          b'.engine = { b.engine with pc := 0, stack := s } ∧ b'.console = c) ∧
        (b.input.UsedUp → b.console.Firm →
          ∀ name, ∃ b' asked, Relation.ReflTransGen Completes
            (b.feed (.ofText name (body ++ [Text.newline]))) b' ∧
            b'.engine = { b.engine with pc := 0, stack := s } ∧ b.console.Heard asked b'.console ∧
            (asked = [] ∨ asked = b.console.prompts.of .execute ∨
              asked = (b.console.prompts.of .execute).dropLead [Text.newline])) := by
  refine ⟨fun a hsound hmode hstack => ?_, s.typed, s.shown_eq, s.lines_typed,
    fun b htop hempty hfree => ⟨?_, ?_⟩⟩
  · rw [dispatch_printStack hsound hmode, hstack]
  · exact fun c hline => htop.reads_typed_after hempty hfree hline
  · intro hused hfirm name
    obtain ⟨c, asked, hline, hheard, hasked⟩ := lineNext_feed name s.lines_typed hused hfirm
    have htop' : AtTop (b.feed (.ofText name (s.typed ++ [Text.newline]))) :=
      ⟨htop.boot.imp (fun h => ⟨h.function, h.fn, h.counter⟩) fun h =>
        ⟨h.function, h.fn, h.counter⟩, htop.running, htop.mode⟩
    obtain ⟨b', hreach, hengine, rfl⟩ := htop'.reads_typed_after hempty hfree hline
    rw [htop.mode] at hasked
    exact ⟨b', asked, hreach, hengine, hheard, hasked⟩

/-- No primitive has a number for its name. -/
lemma find?_numeral (n : Int32) : Dictionary.initial.find? (Text.ofInt n.toInt) = none := by
  have hwords : ∀ f ∈ Dictionary.initial.functions, f.name.readCell.isOk = false := by decide
  refine Option.map_eq_none_iff.mpr (List.findIdx?_eq_none_iff.mpr fun f hf => ?_)
  refine beq_eq_false_iff_ne.mpr fun hname => ?_
  have hnumber := hwords f hf
  rw [hname, readCell_numeral] at hnumber
  cases hnumber

/-- A new machine without input reads back the least number and another one. -/
theorem printed_stack_reads_back_of_new :
    ∃ b body, create [.output (.memory [])] = .ok b ∧ AtTop b ∧ b.console.Firm ∧
      Stack.shown [7, -2147483648] = utf8 "[ " ++ body ++ utf8 "]\n" ∧
    ∃ b', Relation.ReflTransGen Completes (b.feed (.ofText [] (body ++ [Text.newline]))) b' ∧
      b'.engine.stack = [7, -2147483648] := by
  obtain ⟨b, hnew, htop, hempty, hdict, hused, hroute, houtlet⟩ : ∃ b,
      create [.output (.memory [])] = .ok b ∧ AtTop b ∧ b.engine.stack = [] ∧
      b.engine.dict = Dictionary.initial ∧ b.input.UsedUp ∧
      b.console.route = .single 1 ∧ b.console.outlets[1]? = some (.memory []) :=
    ⟨_, rfl, ⟨Or.inl ⟨rfl, rfl, rfl⟩, rfl, rfl⟩, rfl, rfl, ⟨rfl, by decide⟩, rfl, rfl⟩
  have hfirm := firm_create hnew (Console.reliable_of_memory hroute houtlet)
  obtain ⟨-, body, hshown, -, hreads⟩ := printed_stack_reads_back [7, -2147483648]
  obtain ⟨-, hfed⟩ := hreads b htop hempty fun n _ => by rw [hdict]; exact find?_numeral n
  obtain ⟨b', -, hreach, hengine, -⟩ := hfed hused hfirm []
  exact ⟨b, body, hnew, htop, hfirm, hshown, b', hreach, by rw [hengine]⟩

end Machine

end ColonMachine
