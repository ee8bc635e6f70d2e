import ColonMachine.Proofs.Session
import ColonMachine.Proofs.Sinks

/-!
# A machine as a session

`Machine.session` is what a machine looks like to somebody who reads the language: its counter, its
return stack, its trace and its console are left out, and instead of streams there are only the
lines that can still be read.  `Shown` says that a machine shows a given session, whose output has
been written to the console.

On a steady console every action of the dialogue is then an action on the session: writing adds to
the output, a diagnostic also drops the rest of the line, and reading takes words off the line
(`write_shown`, `report_shown`, `nextWord_word`, `nextName_shown`).  From these it follows that
every primitive of the machine does what the primitive of the language does (`follows_primitive`).
-/

namespace ColonMachine

/-! ## The lines that can still be read -/

namespace Source

/-- The words of all lines up to the first failure. -/
def unreadIn : List Stream → List (List Text)
  | [] => []
  | stream :: queue =>
    stream.lines.map Text.words ++ if stream.failure.isSome then [] else unreadIn queue

def unread (src : Source) : List (List Text) := unreadIn (src.current.toList ++ src.queue)

section ReadLine

variable {ε : Type} {hooks : Hooks ε} {P : ε → Prop} {src : Source} {env : ε}

/-- What reading a line comes to, if the given lines can be read and nothing else fails: the first
of them is current, or if there is none, reading fails and the source is as it was. -/
def Reads (P : ε → Prop) (lines : List (List Text)) (buffer : Option (List Text))
    (r : Option Failure × Source × ε) : Prop :=
  P r.2.2 ∧ match lines with
    | line :: lines => r.1 = none ∧ r.2.1.buffer = some line ∧ r.2.1.unread = lines
    | [] => r.1.isSome ∧ r.2.1.buffer = buffer ∧ r.2.1.unread = []

/-- Reading from a stream and, if it is at its end, from those behind it. -/
lemma reads_attempt {stream : Stream}
    (hannounce : ∀ src env, P env → ∃ env', announce hooks src env = (none, env') ∧ P env')
    (hcurrent : src.current = some stream) (henv : P env)
    (hqueue : ∀ env, P env →
      Reads P (unreadIn src.queue) src.buffer (readQueued hooks src.queue src env)) :
    Reads P src.unread src.buffer (match src.attempt hooks stream env with
      | .line src env => (none, src, env)
      | .failed failure env => (some failure, src, env)
      | .ended env => readQueued hooks src.queue src env) := by
  obtain ⟨env1, hhooks, henv1⟩ := hannounce src env henv
  have hunread : src.unread = stream.lines.map Text.words ++
      if stream.failure.isSome then [] else unreadIn src.queue := by
    rw [unread, hcurrent]
    rfl
  rw [attempt, hhooks, hunread]
  cases hlines : stream.lines with
  | cons line rest => exact ⟨henv1, rfl, rfl, rfl⟩
  | nil =>
      cases hfailure : stream.failure with
      | none => exact hqueue env1 henv1
      | some failure =>
          refine ⟨henv1, rfl, rfl, ?_⟩
          rw [hunread, hlines, hfailure]
          rfl

lemma reads_queued
    (hannounce : ∀ src env, P env → ∃ env', announce hooks src env = (none, env') ∧ P env')
    (queue : List Stream) (henv : P env) :
    Reads P (unreadIn queue) src.buffer (readQueued hooks queue src env) := by
  induction queue generalizing src env with
  | nil => exact ⟨henv, rfl, rfl, rfl⟩
  | cons stream queue ih => exact reads_attempt hannounce rfl henv fun env henv => ih henv

lemma reads_line
    (hannounce : ∀ src env, P env → ∃ env', announce hooks src env = (none, env') ∧ P env')
    (src : Source) (henv : P env) :
    Reads P src.unread src.buffer (src.readLine hooks env) := by
  cases hcurrent : src.current with
  | none =>
      have hunread : src.unread = unreadIn src.queue := by
        rw [unread, hcurrent]
        rfl
      rw [readLine, hcurrent, hunread]
      exact reads_queued hannounce src.queue henv
  | some stream =>
      rw [readLine, hcurrent]
      exact reads_attempt hannounce hcurrent henv fun env henv =>
        reads_queued hannounce src.queue henv

end ReadLine

end Source

/-! ## The session that a machine shows -/

/-- The machine as a session that has written `output`. -/
def Machine.session (m : Machine) (output : Text) : Session where
  line := m.input.buffered
  lines := m.input.unread
  dict := m.engine.dict
  stack := m.engine.stack
  mode := m.engine.mode
  defining := m.engine.defining
  running := m.engine.running
  output := output

/-- The machine shows the session `s`, whose output was written to a console that was `c₀`
before. -/
def Machine.Shown (c₀ : Console) (m : Machine) (s : Session) : Prop :=
  ∃ output, Console.Heard c₀ output m.console ∧ s = m.session output

namespace Machine

variable {c₀ : Console} {m m' : Machine} {s : Session}

lemma Shown.running (h : Shown c₀ m s) : s.running = m.engine.running := by
  obtain ⟨output, -, rfl⟩ := h
  rfl

lemma Shown.dict (h : Shown c₀ m s) : s.dict = m.engine.dict := by
  obtain ⟨output, -, rfl⟩ := h
  rfl

lemma Shown.mode (h : Shown c₀ m s) : s.mode = m.engine.mode := by
  obtain ⟨output, -, rfl⟩ := h
  rfl

/-- A machine that differs in what a session does not have shows the same. -/
lemma Shown.congr (h : Shown c₀ m s) {e : Engine} (hm' : Becomes m e m')
    (he : ({ m with engine := e } : Machine).session = m.session) : Shown c₀ m' s := by
  obtain ⟨output, hheard, rfl⟩ := h
  refine ⟨output, by rw [hm'.console]; exact hheard, ?_⟩
  rw [← he, session, session, hm'.engine, hm'.input]

/-! ## Speaking -/

section Speaking

variable (hc₀ : c₀.Firm)
include hc₀

lemma write_shown (h : Shown c₀ m s) (t : Text) :
    ∃ m', write t m = .ok () m' ∧ Shown c₀ m' { s with output := s.output ++ t } ∧
      m'.input = m.input ∧ m'.console.style = c₀.style := by
  obtain ⟨output, hheard, rfl⟩ := h
  obtain ⟨c, hwrite, hc⟩ := hheard.write hc₀ t
  refine ⟨{ m with console := c }, ?_, ⟨output ++ t, hc, rfl⟩, rfl, hc.style⟩
  rw [write, bind_of_ok (show speak (Console.write t) m = .ok none { m with console := c } by
    rw [speak, hwrite])]
  rfl

lemma print_shown (h : Shown c₀ m s) (t : Text) :
    ∃ m', print t m = .ok () m' ∧ Shown c₀ m' { s with output := s.output ++ t } ∧
      m'.input = m.input := by
  obtain ⟨output, hheard, rfl⟩ := h
  obtain ⟨c, hwrite, hc⟩ := hheard.hand hc₀ .bytes t
  refine ⟨{ m with console := c }, ?_, ⟨output ++ t, hc, rfl⟩, rfl⟩
  rw [print, bind_of_ok (show speak (Console.print t) m = .ok none { m with console := c } by
    rw [speak, Console.print, hwrite])]
  rfl

/-- A diagnostic is written on a line of its own, and the rest of the current line is dropped. -/
lemma report_shown (h : Shown c₀ m s) (message : Text) :
    ∃ m', report message m = .ok () m' ∧ m'.input.buffer.isSome ∧
      Shown c₀ m' { s with
        output := s.output ++ c₀.style message ++ [Text.newline], line := [] } := by
  set m1 := noted (utf8 "!") (fun m =>
    message ++ utf8 " (discarding " ++ Text.quoteAll m.input.buffered ++ utf8 ")") m with hm1
  have h1 : Shown c₀ m1 s := h.congr ((becomes_engine m m.engine).noted _ _) rfl
  have hstyle : m1.console.style = c₀.style := by
    obtain ⟨output, hheard, -⟩ := h1
    exact hheard.style
  obtain ⟨m2, hwrite2, h2, hinput2, -⟩ := write_shown hc₀ h1 (m1.console.style message)
  obtain ⟨m3, hwrite3, ⟨output, hheard, hs⟩, hinput3, -⟩ := write_shown hc₀ h2 [Text.newline]
  refine ⟨{ m3 with console := { m3.console with reported := true }, input := m3.input.discard },
    ?_, rfl, output,
    ⟨hheard.route, hheard.settled, hheard.prompts, hheard.style, hheard.outlets⟩, ?_⟩
  · rw [report, bind_of_ok (show note _ _ m = .ok () m1 from rfl), get_bind, bind_of_ok hwrite2,
      bind_of_ok hwrite3]
    rfl
  · rw [hstyle] at hs
    have hs' := congrArg (fun s : Session => { s with line := [] }) hs
    exact hs'

/-- What a diagnostic comes to: it is heard, and nothing is left of the current line. -/
lemma report_heard {text : Text} (h : c₀.Heard text m.console) (message : Text) :
    ∃ m', report message m = .ok () m' ∧ m'.engine = m.engine ∧ m'.input.buffer = some [] ∧
      m'.input.unread = m.input.unread ∧
      c₀.Heard (text ++ c₀.style message ++ [Text.newline]) m'.console := by
  obtain ⟨m', hreport, hbuffer, output, hheard, hs⟩ :=
    report_shown hc₀ (m := m) ⟨text, h, rfl⟩ message
  have hline : [] = m'.input.buffered := congrArg Session.line hs
  have hlines : m.input.unread = m'.input.unread := congrArg Session.lines hs
  have houtput : text ++ c₀.style message ++ [Text.newline] = output := congrArg Session.output hs
  obtain ⟨words, hwords⟩ := Option.isSome_iff_exists.mp hbuffer
  rw [Source.buffered, hwords] at hline
  refine ⟨m', hreport, ((talks_report _ m).of_ok hreport).1, ?_,
    hlines.symm, by rw [houtput]; exact hheard⟩
  rw [hwords, hline]
  rfl

/-- Halting flushes everything, and shows the session as it was. -/
lemma halt_shown (α : Type) (h : Shown c₀ m s) (cause : Option Failure) :
    ∃ cause' m', (halt cause : Act α) m = .error (.halt cause') m' ∧ Shown c₀ m' s ∧
      m'.console.Flushed := by
  obtain ⟨output, hheard, rfl⟩ := h
  obtain ⟨c, hflush, hc, hflushed⟩ := hheard.flush hc₀
  have hspeak : speak Console.flush m = .ok none { m with console := c } := by
    rw [speak, hflush]
  set m1 := noted (utf8 "#") (fun _ =>
    utf8 "halt: " ++ ((cause <|> none).map Failure.wording).getD (utf8 "<nil>"))
    { m with console := c } with hm1
  refine ⟨cause <|> none, m1, ?_, ⟨output, ?_, ?_⟩, ?_⟩
  · rw [halt, bind_of_ok hspeak]
    rfl
  · rw [hm1, console_noted]
    exact hc
  · rw [hm1, session, session, engine_noted, input_noted]
  · rw [hm1, console_noted]
    exact hflushed

end Speaking

/-! ## Reading -/

lemma Shown.line (h : Shown c₀ m s) : s.line = m.input.buffered := by
  obtain ⟨output, -, rfl⟩ := h
  rfl

lemma Shown.lines (h : Shown c₀ m s) : s.lines = m.input.unread := by
  obtain ⟨output, -, rfl⟩ := h
  rfl

/-- A word that is left of the line is taken off it, and nothing else happens. -/
lemma nextWord_of_word {w : Text} {line : List Text} (hbuffer : m.input.buffer = some (w :: line)) :
    ∃ m', nextWord m = .ok (some w) m' ∧ m'.engine = m.engine ∧ m'.console = m.console ∧
      m'.input = { m.input with buffer := some line } := by
  set m1 : Machine := { m with input := { m.input with buffer := some line } } with hm1
  refine ⟨noted (utf8 ">") (fun m => w.quote ++ utf8 " from " ++ m.input.last.text) m1, ?_,
    engine_noted .., console_noted .., input_noted ..⟩
  rw [nextWord_eq, Source.nextWord, Source.isEmpty, hbuffer, Source.popWord, hbuffer]
  rfl

lemma nextWord_of_mark (hbuffer : m.input.buffer = some []) :
    ∃ m', nextWord m = .ok none m' ∧ m'.engine = m.engine ∧ m'.console = m.console ∧
      m'.input = { m.input with buffer := none } := by
  refine ⟨{ m with input := { m.input with buffer := none } }, ?_, rfl, rfl, rfl⟩
  rw [nextWord_eq, Source.nextWord, Source.isEmpty, hbuffer, Source.popWord, hbuffer]
  rfl

lemma nextWord_word {w : Text} {line : List Text} (h : Shown c₀ m s)
    (hbuffer : m.input.buffer = some (w :: line)) :
    ∃ m', nextWord m = .ok (some w) m' ∧ m'.input.buffer = some line ∧
      Shown c₀ m' { s with line } := by
  obtain ⟨output, hheard, rfl⟩ := h
  obtain ⟨m', hnext, hengine, hconsole, hinput⟩ := nextWord_of_word hbuffer
  refine ⟨m', hnext, by rw [hinput], output, by rw [hconsole]; exact hheard, ?_⟩
  simp [session, Source.buffered, Source.unread, hengine, hinput]

lemma nextWord_mark (h : Shown c₀ m s) (hbuffer : m.input.buffer = some []) :
    ∃ m', nextWord m = .ok none m' ∧ m'.input.buffer = none ∧ Shown c₀ m' s := by
  obtain ⟨output, hheard, rfl⟩ := h
  obtain ⟨m', hnext, hengine, hconsole, hinput⟩ := nextWord_of_mark hbuffer
  refine ⟨m', hnext, by rw [hinput], output, by rw [hconsole]; exact hheard, ?_⟩
  simp [session, Source.buffered, Source.unread, hengine, hinput, hbuffer]

section ReadLine

/- On any console, as long as what comes before a line is read does not fail and keeps to `P`. -/
variable {P : Console → Prop} (hannounce : ∀ src c, P c →
  ∃ c', Source.announce (Console.hooks m.engine.mode) src c = (none, c') ∧ P c')
include hannounce

/-- After the end of a line, the next one is read first. -/
lemma nextWord_readLine {line : List Text} {lines : List (List Text)} (hP : P m.console)
    (hbuffer : m.input.buffer = none) (hlines : m.input.unread = line :: lines) :
    ∃ m1, nextWord m = nextWord m1 ∧ m1.engine = m.engine ∧ m1.input.buffer = some line ∧
      m1.input.unread = lines ∧ P m1.console := by
  have hreads := Source.reads_line hannounce m.input hP
  rw [hlines] at hreads
  obtain ⟨hc, hnone, hline, hunread⟩ := hreads
  generalize hr :
      m.input.readLine (Console.hooks m.engine.mode) m.console = r at hc hnone hline hunread
  obtain ⟨failure, src, c⟩ := r
  dsimp only at hc hnone hline hunread
  subst hnone
  refine ⟨{ m with input := src, console := c }, ?_, rfl, hline, hunread, hc⟩
  rw [nextWord_eq, nextWord_eq, Source.nextWord, Source.nextWord, Source.isEmpty, Source.isEmpty,
    hbuffer, hline, hr]
  rfl

/-- If there is no line any more, the session is halted. -/
lemma nextWord_readEnd (hP : P m.console) (hbuffer : m.input.buffer = none)
    (hlines : m.input.unread = []) :
    ∃ failure src c, nextWord m = halt (some failure) { m with input := src, console := c } ∧
      src.buffer = none ∧ src.unread = [] ∧ P c := by
  have hreads := Source.reads_line hannounce m.input hP
  rw [hlines] at hreads
  obtain ⟨hc, hsome, hline, hunread⟩ := hreads
  generalize hr :
      m.input.readLine (Console.hooks m.engine.mode) m.console = r at hc hsome hline hunread
  obtain ⟨failure, src, c⟩ := r
  obtain ⟨failure, rfl⟩ := Option.isSome_iff_exists.mp hsome
  refine ⟨failure, src, c, ?_, hline.trans hbuffer, hunread, hc⟩
  rw [nextWord_eq, Source.nextWord, Source.isEmpty, hbuffer, hr]
  rfl

end ReadLine

section Reading

variable (hc₀ : c₀.Steady)
include hc₀

lemma nextWord_line {line : List Text} {lines : List (List Text)} (h : Shown c₀ m s)
    (hbuffer : m.input.buffer = none) (hlines : s.lines = line :: lines) :
    ∃ m1, nextWord m = nextWord m1 ∧ m1.engine = m.engine ∧ m1.input.buffer = some line ∧
      Shown c₀ m1 { s with line, lines } := by
  obtain ⟨output, hheard, rfl⟩ := h
  obtain ⟨m1, hword, hengine, hline, hunread, hc⟩ := nextWord_readLine
    (fun src c hc => hc.announce hc₀ m.engine.mode src) hheard hbuffer hlines
  refine ⟨m1, hword, hengine, hline, output, hc, ?_⟩
  simp [session, Source.buffered, hline, hunread, hengine]

lemma nextWord_ended (h : Shown c₀ m s) (hbuffer : m.input.buffer = none) (hlines : s.lines = []) :
    ∃ cause m', nextWord m = .error (.halt cause) m' ∧ Shown c₀ m' s ∧ m'.console.Flushed := by
  obtain ⟨output, hheard, rfl⟩ := h
  obtain ⟨failure, src, c, hword, hline, hunread, hc⟩ := nextWord_readEnd
    (fun src c hc => hc.announce hc₀ m.engine.mode src) hheard hbuffer hlines
  have hshown : Shown c₀ { m with input := src, console := c } (m.session output) := by
    refine ⟨output, hc, ?_⟩
    rw [session, session, show m.input.unread = [] from hlines, Source.buffered, Source.buffered,
      hbuffer, hline, hunread]
  rw [hword]
  exact halt_shown hc₀.toFirm (Option Text) hshown (some failure)

omit hc₀ in
lemma nextName_congr (h : nextWord m = nextWord m') : nextName m = nextName m' := by
  rcases hword : nextWord m' with ⟨_ | name, m1⟩ | ⟨i, m1⟩
  all_goals rw [nextName, h.trans hword, nextName, hword]

/-- What the name after `:` is, or that there is none. -/
def NameShown (c₀ : Console) (m : Machine) (s : Session) : Prop :=
  match Session.nextName? s.line s.lines with
  | some (name, line, lines) =>
    ∃ m', nextName m = .ok name m' ∧ m'.input.buffer.isSome ∧ Shown c₀ m' { s with line, lines }
  | none =>
    ∃ cause m', nextName m = .error (.halt cause) m' ∧
      Shown c₀ m' { s with line := [], lines := [] } ∧ m'.console.Flushed

omit hc₀ in
/-- If the line has another word, that is the name, and if not, its end does not matter. -/
lemma nameShown_of_blank (h : Shown c₀ m s)
    (hblank : ∀ m', m'.input.buffer = none → Shown c₀ m' s → NameShown c₀ m' s) :
    NameShown c₀ m s := by
  rcases hbuffer : m.input.buffer with _ | _ | ⟨w, line⟩
  · exact hblank m hbuffer h
  · obtain ⟨m', hword, hbuffer', hm'⟩ := nextWord_mark h hbuffer
    have hname := hblank m' hbuffer' hm'
    rwa [NameShown, nextName_of_line hword]
  · obtain ⟨m', hword, hbuffer', hm'⟩ := nextWord_word h hbuffer
    have hline : s.line = w :: line := by rw [h.line, Source.buffered, hbuffer]; rfl
    rw [NameShown, hline, Session.nextName?]
    exact ⟨m', nextName_of_word hword, by rw [hbuffer']; rfl, hm'⟩

/-- The name after `:` is found over as many lines as it takes; the induction is on the lines. -/
lemma nextName_shown (h : Shown c₀ m s) : NameShown c₀ m s := by
  induction hlines : s.lines generalizing m s with
  | nil =>
      refine nameShown_of_blank h fun m' hbuffer h' => ?_
      have hline : s.line = [] := by rw [h'.line, Source.buffered, hbuffer]; rfl
      obtain ⟨cause, m2, hword, hm2⟩ := nextWord_ended hc₀ h' hbuffer hlines
      rw [NameShown, hline, hlines, Session.nextName?]
      refine ⟨cause, m2, nextName_of_error hword, ?_⟩
      rwa [show ({ s with line := [], lines := [] } : Session) = s by rw [← hline, ← hlines]]
  | cons line lines ih =>
      refine nameShown_of_blank h fun m' hbuffer h' => ?_
      have hline : s.line = [] := by rw [h'.line, Source.buffered, hbuffer]; rfl
      obtain ⟨m2, hword, -, -, hm2⟩ := nextWord_line hc₀ h' hbuffer hlines
      have hname := ih hm2 rfl
      rw [NameShown] at hname ⊢
      rw [hline, hlines, Session.nextName?, nextName_congr hword]
      exact hname

end Reading

/-! ## The primitives -/

/-- What came of an action of the machine is what came of an evaluation. -/
inductive Follows (c₀ : Console) :
    Result Unit → EStateM.Result Session.Stop Session Unit → Prop where
  | ok {m : Machine} {s : Session} (h : Shown c₀ m s) (hbuffer : m.input.buffer.isSome) :
      Follows c₀ (.ok () m) (.ok () s)
  | fault {m : Machine} {s : Session} (what : Fault) (h : Shown c₀ m s) :
      Follows c₀ (.error (.fault what) m) (.error (.fault what) s)
  /-- The session has been halted because the input was used up. -/
  | halt {m : Machine} {s : Session} (cause : Option Failure) (h : Shown c₀ m s)
      (hflushed : m.console.Flushed) : Follows c₀ (.error (.halt cause) m) (.error .ended s)

lemma follows_onStack (h : Shown c₀ m s) (hbuffer : m.input.buffer.isSome)
    (f : Stack → Except Fault Stack) : Follows c₀ (onStack f m) (Session.onStack f s) := by
  obtain ⟨output, hheard, rfl⟩ := h
  have hget : (get : Session.Eval Session) (m.session output)
      = .ok (m.session output) (m.session output) := rfl
  rw [onStack, get_bind, Session.onStack, bind_of_ok hget, show (m.session output).stack = m.engine.stack from rfl]
  cases f m.engine.stack with
  | ok stack => exact .ok ⟨output, hheard, rfl⟩ hbuffer
  | error what => exact .fault what ⟨output, hheard, rfl⟩

section Primitives

variable (hc₀ : c₀.Steady)
include hc₀

lemma follows_write (h : Shown c₀ m s) (hbuffer : m.input.buffer.isSome) (t : Text) :
    Follows c₀ (write t m) (Session.say t s) := by
  obtain ⟨m', hwrite, hm', hinput, -⟩ := write_shown hc₀.toFirm h t
  rw [hwrite]
  exact .ok hm' (by rw [hinput]; exact hbuffer)

lemma follows_report (h : Shown c₀ m s) (message : Text) :
    Follows c₀ (report message m) (Session.complain c₀.style message s) := by
  obtain ⟨m', hreport, hbuffer, hm'⟩ := report_shown hc₀.toFirm h message
  rw [hreport]
  exact .ok hm' hbuffer

lemma follows_printTop (h : Shown c₀ m s) (hbuffer : m.input.buffer.isSome) :
    Follows c₀ (printTop m) (Session.primitive c₀.style .print s) := by
  have hstack : s.stack = m.engine.stack := by
    obtain ⟨output, -, rfl⟩ := h
    rfl
  rw [printTop, get_bind, Session.primitive, bind_of_ok (show
    (get : Session.Eval Session) s = .ok s s from rfl), hstack]
  cases m.engine.stack with
  | nil => exact follows_write hc₀ h hbuffer _
  | cons top rest =>
      obtain ⟨m', hprint, hm', hinput⟩ :=
        print_shown hc₀.toFirm h (Text.ofInt top.toInt ++ [Text.newline])
      simp only [hprint]
      exact .ok hm' (by rw [hinput]; exact hbuffer)

lemma follows_define (h : Shown c₀ m s) : Follows c₀ (define m) (Session.define c₀.style s) := by
  have h1 : Shown c₀ { m with engine := { m.engine with mode := .compile } }
      { s with mode := .compile } := by
    obtain ⟨output, hheard, rfl⟩ := h
    exact ⟨output, hheard, rfl⟩
  have hname := nextName_shown hc₀ h1
  rw [NameShown] at hname
  dsimp only at hname
  rw [Session.define]
  rcases hfound : Session.nextName? s.line s.lines with _ | ⟨name, line, lines⟩
  · rw [hfound] at hname
    obtain ⟨cause, m2, hread, hm2, hflushed⟩ := hname
    rw [define_of_error hread]
    exact .halt cause hm2 hflushed
  · rw [hfound] at hname
    obtain ⟨m2, hread, hbuffer, hm2⟩ := hname
    have hdict : s.dict = m2.engine.dict := hm2.dict
    cases hfind : s.dict.find? name with
    | some id =>
        rw [define_taken hread (by rw [← hdict, hfind])]
        simp only [hfind]
        refine follows_report hc₀ ?_ _
        obtain ⟨output, hheard, heq⟩ := hm2
        refine ⟨output, hheard, ?_⟩
        exact congrArg (fun s : Session => { s with mode := .execute, defining := none }) heq
    | none =>
        rw [define_new hread (by rw [← hdict, hfind])]
        simp only [hfind]
        obtain ⟨output, hheard, heq⟩ := hm2
        refine .ok ⟨output, ?_, ?_⟩ ?_
        · rw [console_noted]
          exact hheard
        · rw [session, engine_noted, input_noted]
          exact congrArg (fun s : Session =>
            { s with defining := some s.dict.nextId, dict := s.dict.add name }) heq
        · rw [input_noted]
          exact hbuffer

omit hc₀ in
lemma follows_endDefine (hm : Sound m.engine) (h : Shown c₀ m s) (hbuffer : m.input.buffer.isSome) :
    Follows c₀ (endDefine m) (Session.endDefine s) := by
  obtain ⟨output, hheard, rfl⟩ := h
  obtain ⟨m1, hm1, hend⟩ := endDefine_eq m
  have hsession : Session.endDefine (m.session output) = .ok () { m.session output with
      mode := .execute, defining := none, dict := m.engine.closed.dict } := by
    change EStateM.Result.ok () _ = _
    cases hdefining : m.engine.defining with
    | none => simp [session, Engine.closed, Engine.opened?, hdefining]
    | some target =>
        obtain ⟨f, -, hopened⟩ := hm.opened? hdefining
        simp [session, Engine.closed, hopened, hdefining]
  rw [hend, hsession]
  refine .ok ⟨output, by rw [hm1.console]; exact hheard, ?_⟩ (by rw [hm1.input]; exact hbuffer)
  rw [session, session, hm1.engine, hm1.input]
  rfl

lemma follows_see (h : Shown c₀ m s) (hbuffer : m.input.buffer.isSome) :
    Follows c₀ (see m) (Session.see c₀.style s) := by
  rw [see, Session.see]
  rcases hline : m.input.buffer with _ | _ | ⟨name, line⟩
  · rw [hline] at hbuffer
    cases hbuffer
  · obtain ⟨m', hword, -, hm'⟩ := nextWord_mark h hline
    rw [bind_of_ok hword, h.line, Source.buffered, hline]
    exact follows_report hc₀ hm' _
  · obtain ⟨m', hword, hbuffer', hm'⟩ := nextWord_word h hline
    rw [bind_of_ok hword, h.line, Source.buffered, hline]
    dsimp only [Option.getD_some]
    rw [seeName, get_bind, ← hm'.dict]
    cases hfind : s.dict.find? name with
    | none => exact follows_report hc₀ hm' _
    | some id => exact follows_write hc₀ hm' (by rw [hbuffer']; rfl) _

/-- **The primitives of the machine are those of the language.** -/
lemma follows_primitive (hm : Sound m.engine) (h : Shown c₀ m s) (hbuffer : m.input.buffer.isSome)
    (p : Primitive) : Follows c₀ (primitive p m) (Session.primitive c₀.style p s) := by
  cases p with
  | print => exact follows_printTop hc₀ h hbuffer
  | printStack =>
      obtain ⟨output, hheard, rfl⟩ := h
      exact follows_write hc₀ ⟨output, hheard, rfl⟩ hbuffer m.engine.stack.shown
  | clear =>
      obtain ⟨output, hheard, rfl⟩ := h
      exact .ok ⟨output, hheard, rfl⟩ hbuffer
  | exit =>
      obtain ⟨output, hheard, rfl⟩ := h
      refine .ok ⟨output, (console_noted ..).symm ▸ hheard, ?_⟩ ?_
      · simp [session]
      · simpa using hbuffer
  | define => exact follows_define hc₀ h
  | endDefine => exact follows_endDefine hm h hbuffer
  | words =>
      obtain ⟨output, hheard, rfl⟩ := h
      exact follows_write hc₀ ⟨output, hheard, rfl⟩ hbuffer _
  | see => exact follows_see hc₀ h hbuffer
  | _ => exact follows_onStack h hbuffer _

end Primitives

end Machine

end ColonMachine
