import ColonMachine.Proofs.Containment
import ColonMachine.Proofs.Onward
import ColonMachine.Proofs.RoundTrip

/-!
# Definitions over many lines

A definition may go over any number of lines, and any of them may have a word that cannot be
compiled.  Such a word costs the rest of its line, even a `;` on it, and one diagnostic.  What is
left of the lines are the **effective** words (`Dictionary.effective`), and the definition ends with
the first `;` among them.

`definition_compiles` says what then becomes of it.  Every effective word before that `;` has been
compiled to its one instruction (`Dictionary.instr?`), in the dictionary that has the new name
already, and a return follows.  Nothing else of the engine is changed, and nothing else is written
but prompts.

The proof goes along the lines.  `Dictating` is the state of affairs while the definition is open:
what has been compiled so far, what is left of the line and which lines come after it, and what has
been written.  There is one lemma for each thing that can happen next: a word is compiled
(`Dictating.compile`), or refused (`Dictating.refuse`), the line is over (`Dictating.lineOver`), or
the definition is closed (`Dictating.close`).
-/

namespace ColonMachine

/-! ## What the lines say -/

namespace Dictionary

/-- The instruction that a word is compiled to, if there is one. -/
def instr? (d : Dictionary) (w : Text) : Option Instr :=
  match d.find? w with
  | some id => if id ≤ maxCallId then some (.call (Code.ofCallee id)) else none
  | none =>
    match w.readCell with
    | .ok n => some (.push n.toInt8)
    | .error _ => none

/-- The words of a line before the first one that cannot be compiled. -/
def effective (d : Dictionary) (line : List Text) : List Text :=
  line.takeWhile fun w => (d.instr? w).isSome

/-- What is said of a word that cannot be compiled. -/
def refusal (d : Dictionary) (w : Text) : Text :=
  match d.find? w with
  | some id => utf8 "Error: `" ++ w ++ utf8 "` cannot be compiled, function id " ++ Text.ofInt id ++
      utf8 " out of range"
  | none => utf8 "Error: `" ++ w ++ utf8 "` not a function or a number"

/-- What is said of a line: the first word that cannot be compiled is refused. -/
def refusal? (d : Dictionary) (line : List Text) : Option Text :=
  ((line.dropWhile fun w => (d.instr? w).isSome).head?).map d.refusal

variable {d : Dictionary} {w : Text}

@[simp] lemma instr?_emit (target : FuncId) (code : List Code) :
    (d.emit target code).instr? w = d.instr? w := by
  simp only [instr?, find?_emit]

@[simp] lemma refusal_emit (target : FuncId) (code : List Code) :
    (d.emit target code).refusal w = d.refusal w := by
  simp only [refusal, find?_emit]

/-- Code that is added to the newest function. -/
lemma emit_push (d : Dictionary) (f : Function) (code : List Code) :
    (d.push f).emit d.nextId code = d.push (f.emit code) := by
  have hlast :
      ∀ fs : List Function, (fs ++ [f]).modify fs.length (·.emit code) = fs ++ [f.emit code] := by
    intro fs
    induction fs with
    | nil => rfl
    | cons g fs ih => simpa using ih
  exact congrArg Dictionary.mk (hlast d.functions)

lemma isSome_of_effective {line : List Text} (h : w ∈ d.effective line) : (d.instr? w).isSome :=
  List.all_eq_true.mp List.all_takeWhile w h

/-- **Where the first effective `;` stands.**  No line before its line has one, and the words before
it on its line can all be compiled. -/
lemma exists_first_semicolon {lines : List (List Text)} {stop : Text}
    (h : stop ∈ lines.flatMap d.effective) :
    ∃ before ws line after, lines = before ++ (ws ++ stop :: line) :: after ∧
      (∀ b ∈ before, stop ∉ d.effective b) ∧ stop ∉ ws ∧ (∀ w ∈ ws, (d.instr? w).isSome) ∧
      (lines.flatMap d.effective).takeWhile (· ≠ stop) = before.flatMap d.effective ++ ws := by
  have hpass : ∀ ws : List Text, stop ∉ ws → ∀ w ∈ ws, decide (w ≠ stop) = true := by
    intro ws hws w hw
    exact decide_eq_true fun heq => hws (heq ▸ hw)
  induction lines with
  | nil => simp at h
  | cons b lines ih =>
      rw [List.flatMap_cons] at h ⊢
      by_cases hb : stop ∈ d.effective b
      · obtain ⟨ws, line, hsplit, hws⟩ := List.eq_append_cons_of_mem hb
        have hline : b = ws ++ stop :: (line ++ b.dropWhile fun w => (d.instr? w).isSome) := by
          have hb := List.takeWhile_append_dropWhile (p := fun w => (d.instr? w).isSome) (l := b)
          rw [show b.takeWhile _ = _ from hsplit] at hb
          simpa using hb.symm
        refine ⟨[], ws, _, lines, by rw [← hline]; rfl, by simp, hws, ?_, ?_⟩
        · intro w hw
          exact isSome_of_effective (hsplit ▸ List.mem_append_left _ hw)
        · rw [hsplit, List.append_assoc, List.takeWhile_append_of_pos (hpass ws hws)]
          simp
      · obtain ⟨before, ws, line, after, hlines, hbefore, hws, hall, htake⟩ :=
          ih ((List.mem_append.mp h).resolve_left hb)
        refine ⟨b :: before, ws, line, after, by rw [hlines]; rfl, ?_, hws, hall, ?_⟩
        · simpa using ⟨hb, hbefore⟩
        · rw [List.takeWhile_append_of_pos (hpass _ hb), htake]
          simp

end Dictionary

/-- The engine with a definition open under a new name, into which `body` has been compiled. -/
def Engine.dictated (e : Engine) (name : Text) (body : List Instr) : Engine :=
  { e with
    mode := .compile
    defining := some e.dict.nextId
    dict := e.dict.push { name, code := Instr.assemble body } }

namespace Engine

variable {e : Engine} {name w : Text} {body : List Instr}

lemma dict_dictated (e : Engine) (name : Text) (body : List Instr) :
    (e.dictated name body).dict = (e.dict.add name).emit e.dict.nextId (Instr.assemble body) :=
  (e.dict.emit_push { name } (Instr.assemble body)).symm

/-- Words are looked up as if nothing had been compiled yet. -/
lemma instr?_dictated : (e.dictated name body).dict.instr? w = (e.dict.add name).instr? w := by
  rw [dict_dictated, Dictionary.instr?_emit]

lemma refusal_dictated : (e.dictated name body).dict.refusal w = (e.dict.add name).refusal w := by
  rw [dict_dictated, Dictionary.refusal_emit]

lemma emit_dictated (code : List Code) : (e.dictated name body).dict.emit e.dict.nextId code
    = e.dict.push { name, code := Instr.assemble body ++ code } :=
  e.dict.emit_push { name, code := Instr.assemble body } code

end Engine

/-! ## What is written -/

namespace Console

/-- The text consists of prompts that are shown while a definition is open. -/
def Asks (c : Console) (text : Text) : Prop :=
  ∃ shown : List Text, text = shown.flatten ∧
    ∀ t ∈ shown, t = c.prompts.compile ∨ t = c.prompts.compile.dropLead [Text.newline]

/-- The one diagnostic of a line that has a word which cannot be compiled. -/
def complaint (c : Console) (d : Dictionary) (line : List Text) : Text :=
  match d.refusal? line with
  | some message => c.style message ++ [Text.newline]
  | none => []

/-- What is written while lines are compiled: the diagnostic of each, if there is one, and between
two lines nothing but prompts. -/
inductive Says (c : Console) (d : Dictionary) : List (List Text) → Text → Prop where
  | nil : Says c d [] []
  | cons {line : List Text} {lines : List (List Text)} {asked text : Text} (hasked : c.Asks asked)
      (h : Says c d lines text) : Says c d (line :: lines) (c.complaint d line ++ asked ++ text)

variable {c₀ c : Console} {text asked : Text}

lemma asks_nil (c : Console) : c.Asks [] := ⟨[], rfl, by simp⟩

lemma Asks.append {more : Text} (h : c.Asks asked) (hmore : c.Asks more) :
    c.Asks (asked ++ more) := by
  obtain ⟨shown, rfl, hshown⟩ := h
  obtain ⟨shown', rfl, hshown'⟩ := hmore
  exact ⟨shown ++ shown', by simp, List.forall_mem_append.mpr ⟨hshown, hshown'⟩⟩

/-- Before a line is read, perhaps a prompt is shown. -/
lemma Heard.announce_asking (h : c₀.Heard text c) (hc₀ : c₀.Firm) (src : Source) :
    ∃ asked c', src.announce (hooks .compile) c = (none, c') ∧ c₀.Asks asked ∧
      c₀.Heard (text ++ asked) c' := by
  obtain ⟨asked, c', hannounce, hheard, hasked⟩ := h.announce_prompting hc₀ .compile src
  refine ⟨asked, c', hannounce, ?_, hheard⟩
  rcases hasked with rfl | hasked
  · exact asks_nil c₀
  · exact ⟨[asked], List.flatten_singleton.symm, by simpa [Prompts.of] using hasked⟩

end Console

namespace Machine

variable {m m₀ m1 m2 : Machine} {c₀ : Console} {e : Engine} {w name text : Text} {target : FuncId}
  {body : List Instr} {i : Instr} {ws line next : List Text} {rest : List (List Text)}

/-! ## A word while a definition is open -/

lemma find?_of_lookup? {d : Dictionary} (h : lookup? d w = none) : d.find? w = none := by
  cases hfind : d.find? w with
  | none => rfl
  | some id =>
      obtain ⟨f, hget, -⟩ := Dictionary.get?_of_find? hfind
      rw [lookup?_eq_some.mpr ⟨hfind, hget⟩] at h
      cases h

/-- `;` can be compiled, as far as its id is concerned. -/
lemma instr?_semicolon (h : Sound m.engine) : (m.engine.dict.instr? (utf8 ";")).isSome := by
  obtain ⟨g, hlookup, -⟩ := lookup?_semicolon h
  rw [Dictionary.instr?, (lookup?_eq_some.mp hlookup).1]
  rfl

/-- The operand of a call, read as an unsigned byte, is the id that the word was looked up as. -/
lemma callee_of_instr? {d : Dictionary} {id : FuncId} (h : (d.instr? w).isSome)
    (hfind : d.find? w = some id) :
    Code.callee (Code.ofCallee id) = id := by
  obtain ⟨f, hget, -⟩ := Dictionary.get?_of_find? hfind
  have hmax : id ≤ maxCallId := by
    by_contra hlarge
    simp [Dictionary.instr?, hfind, if_neg hlarge] at h
  exact callee_ofCallee (Dictionary.bounds_of_get? hget).1 hmax

/-- Any other word is compiled to its instruction, or refused if it has none. -/
lemma dispatch_compiling (hm : m.IsSound) (hword : w.IsWord) (hw : w ≠ utf8 ";")
    (hdefining : m.engine.defining = some target) :
    match m.engine.dict.instr? w with
    | some i => ∃ m', dispatch w m = .ok true m' ∧
        Becomes m { m.engine with dict := m.engine.dict.emit target i.bytes } m'
    | none => ∃ m1, Becomes m m.engine m1 ∧
        dispatch w m = (report (m.engine.dict.refusal w) >>= fun _ => pure true) m1 := by
  have hcompile : m.engine.mode = .compile := hm.engine.mode.mpr (by rw [hdefining]; rfl)
  rw [Dictionary.instr?, Dictionary.refusal]
  cases dispatching hm.engine hword with
  | close hlookup himmediate =>
      obtain ⟨hget, hname⟩ := get?_of_lookup? hlookup
      have hboot := ne_boot_of_isWord hm.engine hword hget hname
      have hid := (hm.engine.immediate_iff hget hboot).mp himmediate
      exact absurd (hname.symm.trans ((hm.engine.name_eq_semicolon_iff hget).mpr hid)) hw
  | run _ _ hexecute _ _ => rw [hcompile] at hexecute; cases hexecute
  | number _ _ hexecute _ => rw [hcompile] at hexecute; cases hexecute
  | compile hlookup _ _ htarget hid _ hm1 hdispatch =>
      rw [hdefining] at htarget
      cases htarget
      simp only [(lookup?_eq_some.mp hlookup).1, if_pos hid]
      exact ⟨_, hdispatch, hm1⟩
  | literal hlookup hread _ htarget hm1 hdispatch =>
      rw [hdefining] at htarget
      cases htarget
      simp only [find?_of_lookup? hlookup, hread]
      exact ⟨_, hdispatch, hm1⟩
  | refuse hlookup _ _ hid hdispatch =>
      simp only [(lookup?_eq_some.mp hlookup).1, if_neg (Int.not_le.mpr hid)]
      exact ⟨m, becomes_engine m m.engine, hdispatch⟩
  | unknown hlookup hread hm1 hdispatch =>
      simp only [find?_of_lookup? hlookup, hread]
      exact ⟨_, hm1, hdispatch⟩

/-! ## Taking dictation -/

/-- At the top level of a run, the definition `name` is open, and `body` has been compiled into it.
What is left of the current line is `line`, after which the lines `rest` can be read; and since the
console was `c₀`, `text` has been written.  The line itself may still have to be read. -/
structure Dictating (m₀ : Machine) (c₀ : Console) (e : Engine) (name : Text) (body : List Instr)
    (line : List Text) (rest : List (List Text)) (text : Text) (m : Machine) : Prop where
  top : TopLevel m₀ m
  engine : m.engine = e.dictated name body
  line : ∃ m1, nextWord m = nextWord m1 ∧ m1.engine = m.engine ∧ m1.input.buffer = some line ∧
    m1.input.unread = rest ∧ c₀.Heard text m1.console

namespace Dictating

section Steps

variable (hm₀ : m₀.IsSound) (hc₀ : c₀.Firm) (hrunning : e.running = true)

/-- The next word is taken off the line. -/
lemma take (h : Dictating m₀ c₀ e name body (w :: ws) rest text m) :
    ∃ m1, nextWord m = .ok (some w) m1 ∧ m1.engine = e.dictated name body ∧
      m1.input.buffer = some ws ∧ m1.input.unread = rest ∧ c₀.Heard text m1.console := by
  obtain ⟨p, hnext, hengine, hbuffer, hunread, hheard⟩ := h.line
  obtain ⟨m1, hword, hengine1, hconsole, hinput⟩ := nextWord_of_word hbuffer
  refine ⟨m1, hnext.trans hword, by rw [hengine1, hengine, h.engine], by rw [hinput], ?_, ?_⟩
  · rw [hinput, ← hunread]
    rfl
  · rw [hconsole]
    exact hheard

include hm₀ hrunning in
/-- A word that has an instruction is compiled to it. -/
lemma compile (h : Dictating m₀ c₀ e name body (w :: ws) rest text m) (hw : w ≠ utf8 ";")
    (hi : (e.dict.add name).instr? w = some i) :
    ∃ m', Dictating m₀ c₀ e name (body ++ [i]) ws rest text m' := by
  obtain ⟨m1, hnext, hengine, hbuffer, hunread, hheard⟩ := h.take
  obtain ⟨hm, hat⟩ := h.top.isSound hm₀
  have hm1 := talks_nextWord.isSound hm hnext
  have hdispatch :=
    dispatch_compiling hm1 (isWord_of_nextWord hm.input hnext) hw (by rw [hengine]; rfl)
  rw [hengine, Engine.instr?_dictated, hi] at hdispatch
  obtain ⟨m2, hdispatch, hm2⟩ := hdispatch
  have hread : read m = .ok true m2 := read_of_word hnext hdispatch
  refine ⟨m2, h.top.word (by rw [h.engine]; exact hrunning) hread, ?_, m2, rfl, rfl, ?_, ?_, ?_⟩
  · rw [hm2.engine, Engine.emit_dictated, Engine.dictated, Engine.dictated]
    simp [Instr.assemble]
  · rw [hm2.input, hbuffer]
  · rw [hm2.input, hunread]
  · rw [hm2.console]
    exact hheard

include hm₀ hc₀ hrunning in
/-- A word that has none is refused, and the rest of the line is dropped. -/
lemma refuse (h : Dictating m₀ c₀ e name body (w :: ws) rest text m) (hw : w ≠ utf8 ";")
    (hi : (e.dict.add name).instr? w = none) :
    ∃ m', Dictating m₀ c₀ e name body [] rest
      (text ++ c₀.style ((e.dict.add name).refusal w) ++ [Text.newline]) m' := by
  obtain ⟨m1, hnext, hengine, hbuffer, hunread, hheard⟩ := h.take
  obtain ⟨hm, hat⟩ := h.top.isSound hm₀
  have hm1 := talks_nextWord.isSound hm hnext
  have hdispatch :=
    dispatch_compiling hm1 (isWord_of_nextWord hm.input hnext) hw (by rw [hengine]; rfl)
  rw [hengine, Engine.instr?_dictated, hi, Engine.refusal_dictated, ← hengine] at hdispatch
  obtain ⟨m2, hm2, hdispatch⟩ := hdispatch
  rw [← hm2.console] at hheard
  obtain ⟨m3, hreport, hengine3, hbuffer3, hunread3, hheard3⟩ := report_heard hc₀ hheard _
  have hread : read m = .ok true m3 := read_of_word hnext (hdispatch.trans (bind_of_ok hreport))
  refine ⟨m3, h.top.word (by rw [h.engine]; exact hrunning) hread, ?_, m3, rfl, rfl, hbuffer3, ?_,
    hheard3⟩
  · rw [hengine3, hm2.engine, hengine]
  · rw [hunread3, hm2.input, hunread]

include hm₀ hc₀ hrunning in
/-- At the end of a line the next one is read. -/
lemma lineOver (h : Dictating m₀ c₀ e name body [] (next :: rest) text m) :
    ∃ m' asked, c₀.Asks asked ∧ Dictating m₀ c₀ e name body next rest (text ++ asked) m' := by
  obtain ⟨p, hnext, hengine, hbuffer, hunread, hheard⟩ := h.line
  obtain ⟨hm, hat⟩ := h.top.isSound hm₀
  have hp : p.IsSound :=
    ⟨by rw [hengine]; exact hm.engine, by simp [Source.Tidy, Source.buffered, hbuffer]⟩
  have hgoes : m.engine.running = true := by rw [h.engine]; exact hrunning
  obtain ⟨m1, ⟨hengine1, a, b, hword, hround⟩, hwaiting⟩ := lineOver_of_mark (P := c₀.Heard text) hp
    (by rw [hengine, hat]) (by rw [hengine, hgoes]) hheard hbuffer
  have hover : LineOver m m1 := ⟨hengine1.trans hengine, a, b, hnext.trans hword, hround⟩
  have hdictated : m1.engine = e.dictated name body := hover.engine.trans h.engine
  -- the next line is read, after any number of prompts
  have hannounce : ∀ src c, (∃ asked, c₀.Asks asked ∧ c₀.Heard (text ++ asked) c) →
      ∃ c', Source.announce (Console.hooks m1.engine.mode) src c = (none, c') ∧
        ∃ asked, c₀.Asks asked ∧ c₀.Heard (text ++ asked) c' := by
    rintro src c ⟨asked, hasked, hc⟩
    obtain ⟨more, c', hannounce, hmore, hc'⟩ := hc.announce_asking hc₀ src
    rw [List.append_assoc] at hc'
    rw [hdictated]
    exact ⟨c', hannounce, _, hasked.append hmore, hc'⟩
  obtain ⟨m2, hnext2, hengine2, hbuffer2, hunread2, asked, hasked, hheard2⟩ :=
    nextWord_readLine hannounce
    ⟨[], c₀.asks_nil, by rw [List.append_nil]; exact hwaiting.console⟩ hwaiting.buffer
    (hwaiting.unread.trans hunread)
  exact ⟨m1, asked, hasked, h.top.line hm₀ hgoes hover, hdictated, m2, hnext2, hengine2, hbuffer2,
    hunread2, hheard2⟩

include hm₀ hrunning in
/-- At `;` the definition is closed. -/
lemma close (h : Dictating m₀ c₀ e name body (utf8 ";" :: ws) rest text m)
    (hmode : e.mode = .execute) (hdefining : e.defining = none) :
    ∃ m', TopLevel m₀ m' ∧ m'.engine = { e with
        dict := e.dict.push { name, code := Instr.assemble body ++ [Opcode.ret.code] } } ∧
      m'.input.buffer = some ws ∧ m'.input.unread = rest ∧ c₀.Heard text m'.console := by
  obtain ⟨m1, hnext, hengine, hbuffer, hunread, hheard⟩ := h.take
  obtain ⟨hm, hat⟩ := h.top.isSound hm₀
  have hm1 := talks_nextWord.isSound hm hnext
  obtain ⟨m2, hdispatch, hm2⟩ := dispatch_semicolon hm1
  have hread : read m = .ok true m2 := read_of_word hnext hdispatch
  have hclosed := closed_of_dispatch hm1 (by rw [hengine]; rfl) hdispatch
  refine ⟨m2, h.top.word (by rw [h.engine]; exact hrunning) hread, ?_, by rw [hm2.input, hbuffer],
    by rw [hm2.input, hunread], by rw [hm2.console]; exact hheard⟩
  rw [hclosed, hengine, Engine.emit_dictated, Engine.dictated, ← hmode, ← hdefining]

end Steps

section Lines

variable (hm₀ : m₀.IsSound) (hc₀ : c₀.Firm) (hrunning : e.running = true)
include hm₀ hrunning

/-- Words that have an instruction are compiled one after the other. -/
lemma words (h : Dictating m₀ c₀ e name body (ws ++ line) rest text m) (hws : utf8 ";" ∉ ws)
    (hall : ∀ w ∈ ws, ((e.dict.add name).instr? w).isSome) :
    ∃ m' more, List.Forall₂ (fun w i => (e.dict.add name).instr? w = some i) ws more ∧
      Dictating m₀ c₀ e name (body ++ more) line rest text m' := by
  induction ws generalizing m body with
  | nil => exact ⟨m, [], .nil, by rwa [List.append_nil]⟩
  | cons w ws ih =>
      rw [List.mem_cons, not_or] at hws
      obtain ⟨hw, hall⟩ := List.forall_mem_cons.mp hall
      obtain ⟨i, hi⟩ := Option.isSome_iff_exists.mp hw
      obtain ⟨m1, h1⟩ := compile hm₀ hrunning h (Ne.symm hws.1) hi
      obtain ⟨m', more, hmore, h'⟩ := ih h1 hws.2 hall
      exact ⟨m', i :: more, .cons hi hmore, by simpa using h'⟩

include hc₀

/-- A whole line is dictated: its effective words are compiled, and if there are others the first of
them is refused.  Then the next line is read. -/
lemma whole (h : Dictating m₀ c₀ e name body line (next :: rest) text m)
    (hline : utf8 ";" ∉ (e.dict.add name).effective line) :
    ∃ m' more asked,
      List.Forall₂ (fun w i => (e.dict.add name).instr? w = some i)
        ((e.dict.add name).effective line) more ∧
      c₀.Asks asked ∧ Dictating m₀ c₀ e name (body ++ more) next rest
        (text ++ c₀.complaint (e.dict.add name) line ++ asked) m' := by
  set d := e.dict.add name with hd
  have hsplit := List.takeWhile_append_dropWhile (p := fun w => (d.instr? w).isSome) (l := line)
  have hhead := List.head?_dropWhile_not (fun w => (d.instr? w).isSome) line
  rw [← hsplit] at h
  obtain ⟨m1, more, hmore, h1⟩ := words hm₀ hrunning h hline fun w => Dictionary.isSome_of_effective
  have hdropped : ∃ m2, Dictating m₀ c₀ e name (body ++ more) [] (next :: rest)
      (text ++ c₀.complaint d line) m2 := by
    rw [Console.complaint, Dictionary.refusal?]
    rcases hrest : line.dropWhile fun w => (d.instr? w).isSome with _ | ⟨w, ws⟩
    · rw [hrest] at h1
      exact ⟨m1, by simpa using h1⟩
    · rw [hrest] at h1 hhead
      have hnone : d.instr? w = none := by simpa using hhead
      have hw : w ≠ utf8 ";" := by
        rintro rfl
        have hsemicolon := instr?_semicolon (h1.top.isSound hm₀).1.engine
        rw [h1.engine, Engine.instr?_dictated, ← hd, hnone] at hsemicolon
        cases hsemicolon
      obtain ⟨m2, h2⟩ := refuse hm₀ hc₀ hrunning h1 hw hnone
      exact ⟨m2, by simpa using h2⟩
  obtain ⟨m2, h2⟩ := hdropped
  obtain ⟨m', asked, hasked, h'⟩ := lineOver hm₀ hc₀ hrunning h2
  exact ⟨m', more, asked, hmore, hasked, h'⟩

/-- **The run lemma.**  Any number of lines without an effective `;` are dictated. -/
lemma lines {before : List (List Text)} {last : List Text} {after : List (List Text)}
    (h : Dictating m₀ c₀ e name body line rest text m)
    (hlines : line :: rest = before ++ last :: after)
    (hbefore : ∀ b ∈ before, utf8 ";" ∉ (e.dict.add name).effective b) :
    ∃ m' more said,
      List.Forall₂ (fun w i => (e.dict.add name).instr? w = some i)
        (before.flatMap (e.dict.add name).effective) more ∧
      c₀.Says (e.dict.add name) before said ∧
      Dictating m₀ c₀ e name (body ++ more) last after (text ++ said) m' := by
  induction before generalizing m body line rest text with
  | nil =>
      cases hlines
      exact ⟨m, [], [], .nil, .nil, by simpa using h⟩
  | cons b before ih =>
      obtain ⟨hb, hlater⟩ := List.forall_mem_cons.mp hbefore
      rw [List.cons_append] at hlines
      obtain ⟨rfl, hrest⟩ := List.cons.inj hlines
      obtain ⟨next, rest', hnext⟩ : ∃ next rest', before ++ last :: after = next :: rest' := by
        cases before with
        | nil => exact ⟨_, _, rfl⟩
        | cons b before => exact ⟨_, _, rfl⟩
      rw [hrest, hnext] at h
      obtain ⟨m1, more, asked, hmore, hasked, h1⟩ := whole hm₀ hc₀ hrunning h hb
      obtain ⟨m', more', said, hmore', hsaid, h'⟩ := ih h1 hnext.symm hlater
      refine ⟨m', more ++ more', _, List.rel_append hmore hmore', .cons hasked hsaid, ?_⟩
      simpa using h'

end Lines

end Dictating

/-! ## Opening a definition -/

/-- The word is read after any number of line ends. -/
lemma Reads.exists_lines (h : Reads w m m1) (hm : m.IsSound) (hat : m.engine.control = onPrompt) :
    ∃ p, LinesOver m p ∧ p.engine.running = true ∧ nextWord p = .ok (some w) m1 := by
  induction h with
  | @word m m1 hrunning hnext => exact ⟨m, .refl, hrunning, hnext⟩
  | @line m a b c m1 hrunning hnext hjump hc hprompt _ ih =>
      obtain ⟨hb, hengine, hsound⟩ := round_of_line hm hat hnext hjump hc
      have hover : LineOver m c := ⟨hengine, a, b, hnext, hb, hjump, hc, hprompt⟩
      obtain ⟨p, hovers, hp, hword⟩ := ih hsound (by rw [hengine, hat])
      exact ⟨p, .head hover hovers, hp, hword⟩

/-- On an output that does not fail, what was written so far has been heard. -/
lemma TopLevel.heard (h : TopLevel m₀ m) (hm₀ : m₀.IsSound) (hc : m₀.console.Firm) :
    ∃ text, m₀.console.Heard text m.console := by
  induction h with
  | @enter m m' hreach _ _ hm' _ =>
      obtain ⟨fuel, context, stopped, hexec⟩ := hreach
      have hindent : (m₀.indent true).input.Tidy := hm₀.input
      have hchanges := changes_exec fuel context hindent
      rw [hexec] at hchanges
      rw [hm'.console]
      exact Changes.heard hchanges hc ⟨[], hc.heard⟩
  | @word m m' h _ hread ih =>
      have hchanges := proceeds_read m (h.isSound hm₀).1.input
      rw [hread] at hchanges
      exact Changes.heard hchanges hc ih

lemma buffer_of_nextWord (h : nextWord m = .ok (some w) m1) : m1.input.buffer.isSome := by
  have hpop : ∀ src : Source, src.popWord.1 = some w → src.popWord.2.buffer.isSome := by
    intro src hw
    rcases hbuffer : src.buffer with _ | _ | ⟨v, vs⟩ <;> simp [Source.popWord, hbuffer] at hw ⊢
  rw [nextWord_eq] at h
  have hword := (accept_eq_ok h).1
  have hsome : (m.input.nextWord (Console.hooks m.engine.mode) m.console).2.1.buffer.isSome := by
    rw [Source.nextWord] at hword ⊢
    split_ifs at hword ⊢
    · generalize m.input.readLine (Console.hooks m.engine.mode) m.console = r at hword ⊢
      obtain ⟨_ | failure, src, c⟩ := r
      · exact hpop src (Except.ok.inj hword)
      · cases hword
    · exact hpop m.input (Except.ok.inj hword)
  rw [hword] at h
  cases h
  rw [input_noted]
  exact hsome

lemma buffer_of_nextName (h : nextName m = .ok name m1) : m1.input.buffer.isSome := by
  induction m using nextName.induct with
  | case1 m p hword ih => exact ih (by rwa [nextName_of_line hword] at h)
  | case2 m name' p hword =>
      rw [nextName_of_word hword] at h
      cases h
      exact buffer_of_nextWord hword
  | case3 m i p hword =>
      rw [nextName_of_error hword] at h
      cases h

/-- The words `:` and a new name open a definition. -/
lemma exists_dictating (hm₀ : m₀.IsSound) (hc : m₀.console.Firm) (htop : TopLevel m₀ m)
    (hmode : m.engine.mode = .execute) (hcolon : Reads (utf8 ":") m m1)
    (hname : nextName { m1 with engine := { m1.engine with mode := .compile } } = .ok name m2)
    (hfresh : m.engine.dict.find? name = none) :
    m2.console.Firm ∧
      ∃ m', Dictating m₀ m2.console m.engine name [] m2.input.buffered m2.input.unread [] m' := by
  obtain ⟨hm, hat⟩ := htop.isSound hm₀
  obtain ⟨-, -, -, hrunning⟩ := hcolon.engine hm hat
  obtain ⟨p, hovers, hp, hnext⟩ := hcolon.exists_lines hm hat
  have htop' := htop.lines hm₀ hrunning hovers
  have hsound := (htop'.isSound hm₀).1
  have hm1 := talks_nextWord.isSound hsound hnext
  have hengine1 : m1.engine = m.engine :=
    ((talks_nextWord p).of_ok hnext).1.trans (LinesOver.engine hovers)
  obtain ⟨hengine2, htidy2⟩ := (talks_nextName _).of_ok hname
  -- what was written before
  obtain ⟨text, hheard⟩ : ∃ text, m₀.console.Heard text m2.console := by
    have hfirst := proceeds_nextWord p hsound.input
    rw [hnext] at hfirst
    have hlast :=
      proceeds_nextName { m1 with engine := { m1.engine with mode := .compile } } hm1.input
    rw [hname] at hlast
    have hheard1 := Changes.heard hfirst hc (htop'.heard hm₀ hc)
    exact Changes.heard hlast hc hheard1
  -- `:` is run, and reads the name
  obtain ⟨m3, hdispatch, hm3⟩ := dispatch_colon_of_name hm1 (by rw [hengine1, hmode]) hname
    (by rw [hengine1]; exact hfresh)
  have hread : read p = .ok true m3 := read_of_word hnext hdispatch
  have hfirm := hheard.firm hc
  refine ⟨hfirm, m3, htop'.word hp hread, ?_, m3, rfl, rfl, ?_, ?_, ?_⟩
  · rw [hm3.engine, hengine1]
    rfl
  · obtain ⟨words, hwords⟩ := Option.isSome_iff_exists.mp (buffer_of_nextName hname)
    rw [hm3.input]
    simp [Source.buffered, hwords]
  · rw [hm3.input]
  · rw [hm3.console]
    exact hfirm.heard

/-- **What a definition compiles to.**  `lines` are what is left of the line after the name, and the
lines after it.  The effective words before the first effective `;` become the body, one instruction
each, with a return after the last.  Apart from the new function the engine is as it was before the
`:`.  Reading goes on right after that `;`, and what was written are the diagnostics of the lines
before it, one for each that has a word refused, and prompts.

That the output takes everything is more than is needed.  It is there to keep the session from being
halted before the closing `;`, by a diagnostic or a prompt that cannot be written. -/
theorem definition_compiles {settings : List Setting} {d : Dictionary} {lines : List (List Text)}
    {words : List Text} (hnew : create settings = .ok m₀) (hsinks : m₀.console.Reliable)
    (htop : TopLevel m₀ m) (hmode : m.engine.mode = .execute) (hcolon : Reads (utf8 ":") m m1)
    (hname : nextName { m1 with engine := { m1.engine with mode := .compile } } = .ok name m2)
    (hfresh : m.engine.dict.find? name = none) (hd : d = m.engine.dict.add name)
    (hlines : lines = m2.input.buffered :: m2.input.unread)
    (hwords : words = (lines.flatMap d.effective).takeWhile (· ≠ utf8 ";"))
    (hclosed : utf8 ";" ∈ lines.flatMap d.effective) :
    ∃ body m', List.Forall₂ (fun w i => d.instr? w = some i) words body ∧ TopLevel m₀ m' ∧
      m'.engine = { m.engine with
        dict := m.engine.dict.push { name, code := Instr.assemble body ++ [Opcode.ret.code] } } ∧
      (∀ w ∈ words, ∀ id, d.find? w = some id → Code.callee (Code.ofCallee id) = id) ∧
      ∃ before ws line after said, lines = before ++ (ws ++ utf8 ";" :: line) :: after ∧
        words = before.flatMap d.effective ++ ws ∧ m'.input.buffer = some line ∧
        m'.input.unread = after ∧ m2.console.Says d before said ∧
        m2.console.Heard said m'.console := by
  subst hd
  have hm₀ := (fresh_create hnew).isSound
  obtain ⟨hm, hat⟩ := htop.isSound hm₀
  obtain ⟨-, -, -, hrunning⟩ := hcolon.engine hm hat
  have hdefining : m.engine.defining = none := by
    have hopen := hm.engine.mode.not
    rw [hmode] at hopen
    simpa using hopen
  obtain ⟨hfirm, m3, h3⟩ :=
    exists_dictating hm₀ (firm_create hnew hsinks) htop hmode hcolon hname hfresh
  obtain ⟨before, ws, line, after, hsplit, hbefore, hws, hall, htake⟩ :=
    Dictionary.exists_first_semicolon hclosed
  obtain ⟨m4, more, said, hmore, hsaid, h4⟩ :=
    Dictating.lines hm₀ hfirm hrunning h3 (hlines.symm.trans hsplit) hbefore
  obtain ⟨m5, last, hlast, h5⟩ := Dictating.words hm₀ hrunning h4 hws hall
  obtain ⟨m', htop', hengine, hbuffer, hunread, hheard⟩ :=
    Dictating.close hm₀ hrunning h5 hmode hdefining
  have hbody :
      List.Forall₂ (fun w i => (m.engine.dict.add name).instr? w = some i) words
        (more ++ last) := by
    rw [hwords, htake]
    exact List.rel_append hmore hlast
  refine ⟨more ++ last, m', hbody, htop', hengine, ?_, before, ws, line, after, said, hsplit,
    hwords.trans htake, hbuffer, hunread, hsaid, hheard⟩
  intro w hw id hfind
  rw [hwords] at hw
  obtain ⟨b, -, hb⟩ := List.mem_flatMap.mp ((List.takeWhile_sublist _).mem hw)
  exact callee_of_instr? (Dictionary.isSome_of_effective hb) hfind

/-- A definition over three lines.  It refers to itself, one of its numbers loses its high bits, and
the second line is dropped with the `;` on it. -/
theorem definition_compiles_over_lines :
    ∃ m₀ m m1 m2 m', create [.written [] (.ok (utf8 ": f 300 f\nbad ; 1\ndup ; 2\n")),
        .output (.memory [])] = .ok m₀ ∧ m₀.console.Reliable ∧ TopLevel m₀ m ∧ Reads (utf8 ":") m m1 ∧
      nextName { m1 with engine := { m1.engine with mode := .compile } } = .ok (utf8 "f") m2 ∧
      TopLevel m₀ m' ∧
      m'.engine.dict
        = Dictionary.initial.push { name := utf8 "f", code := [3, 44, 0, 16, 0, 6, 5] } ∧
      m'.engine.stack = [] ∧ m'.engine.frames = [] := by
  obtain ⟨m₀, hnew⟩ : ∃ m₀, create [.written [] (.ok (utf8 ": f 300 f\nbad ; 1\ndup ; 2\n")),
      .output (.memory [])] = .ok m₀ := ⟨_, rfl⟩
  have hsinks : m₀.console.Reliable := by
    cases hnew
    exact Console.reliable_of_memory rfl rfl
  obtain ⟨m, hprompt, m1, hcolon, m2, hname, hm₀, hm, hdict, hlines⟩ :
      ∃ m, step (m₀.indent true) = prompt m ∧ ∃ m1, nextWord m = .ok (some (utf8 ":")) m1 ∧
      ∃ m2, nextWord { m1 with engine := { m1.engine with mode := .compile } }
          = .ok (some (utf8 "f")) m2 ∧
        ((m₀.indent true).engine.fn = bootId ∧ (m₀.indent true).engine.pc = -1 ∧
          Becomes (m₀.indent true) { (m₀.indent true).engine with pc := 0 } m) ∧
        (m.engine.mode = .execute ∧ m.engine.running = true ∧ m.engine.stack = [] ∧
        m.engine.frames = []) ∧ m.engine.dict = Dictionary.initial ∧
        [[utf8 "300", utf8 "f"], [utf8 "bad", utf8 ";", utf8 "1"], [utf8 "dup", utf8 ";", utf8 "2"]]
          = m2.input.buffered :: m2.input.unread := by
    cases hnew
    iterate 3 refine ⟨_, rfl, ?_⟩
    exact ⟨⟨rfl, rfl, rfl, rfl, rfl⟩, ⟨rfl, rfl, rfl, rfl⟩, rfl, rfl⟩
  have htop : TopLevel m₀ m := .enter ⟨0, .background, _, rfl⟩ hm₀.1 hm₀.2.1 hm₀.2.2 hprompt
  have hreads : Reads (utf8 ":") m m1 := .word hm.2.1 hcolon
  have hnamed := nextName_of_word hname
  obtain ⟨body, m', hbody, htop', hengine, -⟩ :=
    definition_compiles hnew hsinks htop hm.1 hreads hnamed
    (by rw [hdict]; rfl) (congrArg (Dictionary.add · (utf8 "f")) hdict).symm hlines rfl (by decide)
  have hwords : List.Forall₂ (fun w i => (Dictionary.initial.add (utf8 "f")).instr? w = some i)
      [utf8 "300", utf8 "f", utf8 "dup"] body := hbody
  have hcode : body = [.push 44, .call 16, .call 6] := by
    obtain _ | ⟨h₁, _ | ⟨h₂, _ | ⟨h₃, _ | _⟩⟩⟩ := hwords
    cases h₁
    cases h₂
    cases h₃
    rfl
  refine ⟨m₀, m, m1, m2, m', hnew, hsinks, htop, hreads, hnamed, htop', ?_, ?_, ?_⟩
  · rw [hengine, hdict, hcode]
    rfl
  · rw [hengine, hm.2.2.1]
  · rw [hengine, hm.2.2.2]

end Machine

end ColonMachine
