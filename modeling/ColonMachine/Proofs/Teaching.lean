import ColonMachine.Proofs.Delivery
import ColonMachine.Proofs.Dictation

/-!
# Texts of definitions

While a text that consists of definitions is read, no word is run, and the dictionary that it leaves
can be computed from the text alone (`Dictionary.taught`).

The machine does come to that dictionary.  The invariant is about what is still ahead (`Learning`):
read in the dictionary as it is now, it leads to the same dictionary in the end.  One word after the
other keeps it (`Learning.read`), hence one line after the other (`Learning.prompt`) and every
instruction (`Learns.instruct`), until the next stream is begun.  After that nothing is claimed, and
since streams are never taken up again, that stays so (`Past`).

* `TopLevel.dict_of_hasRead`: once the text has been read, the dictionary is the one computed from
  it.
* `exists_hasRead`: if nothing fails that happens before a line is read, the text does get read.
-/

namespace ColonMachine

/-! ## What a text teaches -/

/-- The dictionary after a text of definitions, if that is what the text is.  `target` is the
function under definition where it begins, and `none` among the words is the end of a line. -/
def Dictionary.taught (d : Dictionary) (target : Option FuncId) :
    List (Option Text) → Option Dictionary
  | [] => if target.isNone then some d else none
  | none :: items => d.taught target items
  | some w :: items =>
    match target with
    | some target =>
      if w = utf8 ";" then (d.emit target [Opcode.ret.code]).taught none items
      else (d.instr? w).bind fun i => (d.emit target i.bytes).taught (some target) items
    | none =>
      match items with
      | some name :: items =>
        if w = utf8 ":" ∧ d.find? name = none then (d.add name).taught (some d.nextId) items
        else none
      | _ => none

/-! ## What a source gives before it comes to other streams -/

/-- What a source gives of a stream: the words of its lines, and the end of each. -/
def Stream.items (stream : Stream) : List (Option Text) :=
  stream.lines.flatMap fun line => Source.items line.words

lemma Stream.items_of_nil {stream : Stream} (h : stream.lines = []) : stream.items = [] := by
  rw [items, h]
  rfl

lemma Stream.items_of_cons {stream : Stream} {line : Text} {lines : List Text}
    (h : stream.lines = line :: lines) :
    stream.items = Source.items line.words ++ Stream.items { stream with lines } := by
  rw [items, h]
  rfl

namespace Source

variable {ε : Type} {hooks : Hooks ε} {env env' : ε} {src src' : Source} {stream : Stream}
    {others queue : List Stream}
  {word : Option Text} {item : Option Text} {rest : List (Option Text)}

/-- The streams that still can be read from, the current one first. -/
def streams (src : Source) : List Stream := src.current.toList ++ src.queue

/-- The source gives `rest` before it comes to the streams `others`. -/
def Ahead (others : List Stream) (rest : List (Option Text)) (src : Source) : Prop :=
  ∃ stream, src.streams = stream :: others ∧ rest = src.marked ++ stream.items

/-- Everything before the streams `others` has been read. -/
def HasRead (others : List Stream) (src : Source) : Prop :=
  src.buffered = [] ∧ ∃ stream, src.streams = stream :: others ∧ stream.lines = []

lemma Ahead.of_nil (h : src.Ahead others []) :
    src.buffer = none ∧ ∃ stream, src.streams = stream :: others ∧ stream.lines = [] := by
  obtain ⟨stream, hstreams, hrest⟩ := h
  obtain ⟨hmarked, hitems⟩ := List.append_eq_nil_iff.mp hrest.symm
  refine ⟨?_, stream, hstreams, ?_⟩
  · cases hbuffer : src.buffer with
    | none => rfl
    | some words => simp [marked, hbuffer] at hmarked
  · cases hlines : stream.lines with
    | nil => rfl
    | cons line lines => simp [Stream.items_of_cons hlines, items] at hitems

lemma Ahead.hasRead (h : src.Ahead others []) : src.HasRead others := by
  obtain ⟨hbuffer, hstream⟩ := h.of_nil
  exact ⟨by simp [buffered, hbuffer], hstream⟩

/-- At most the end of the last line is still ahead. -/
lemma Ahead.of_hasRead (h : src.Ahead others rest) (hread : src.HasRead others) :
    rest = [] ∨ rest = [none] := by
  obtain ⟨stream, hstreams, rfl⟩ := h
  obtain ⟨hbuffered, stream', hstreams', hlines⟩ := hread
  obtain rfl : stream = stream' := (List.cons.inj (hstreams.symm.trans hstreams')).1
  rw [Stream.items_of_nil hlines]
  cases hbuffer : src.buffer with
  | none => exact Or.inl (by simp [marked, hbuffer])
  | some words => exact Or.inr (by simp_all [marked, buffered])

lemma marked_popWord (h : src.buffer.isSome) :
    src.marked = src.popWord.1 :: src.popWord.2.marked := by
  obtain ⟨words, hwords⟩ := Option.isSome_iff_exists.mp h
  cases words <;> simp [marked, popWord, hwords]

lemma streams_popWord (src : Source) : src.popWord.2.streams = src.streams := by
  rw [popWord]
  split <;> rfl

lemma Ahead.popWord (h : src.Ahead others (item :: rest)) (hbuffer : src.buffer.isSome) :
    src.popWord.1 = item ∧ src.popWord.2.Ahead others rest := by
  obtain ⟨stream, hstreams, hrest⟩ := h
  rw [marked_popWord hbuffer, List.cons_append] at hrest
  obtain ⟨hitem, hrest⟩ := List.cons.inj hrest
  exact ⟨hitem.symm, stream, (streams_popWord src).trans hstreams, hrest⟩

/-- A line is read from the first of the streams, whether it has been begun or not. -/
lemma readLine_of_streams (h : src.streams = stream :: others) (hooks : Hooks ε) (env : ε) :
    ∃ src1 : Source, src1.queue = others ∧
      src.readLine hooks env = src1.readOn hooks stream env := by
  rw [streams] at h
  cases hcurrent : src.current with
  | none =>
      rw [hcurrent] at h
      refine ⟨src.begun stream others, rfl, ?_⟩
      rw [readLine_of_none hcurrent, show src.queue = stream :: others from h, readQueued_cons]
  | some first =>
      rw [hcurrent] at h
      obtain ⟨rfl, hqueue⟩ := List.cons.inj h
      exact ⟨src, hqueue, readLine_of_some hcurrent⟩

/-- **What is ahead is given**, unless what happens before a line is read fails. -/
lemma Ahead.nextWord (h : src.Ahead others (item :: rest)) (hooks : Hooks ε) (env : ε) :
    (∃ src' env', src.nextWord hooks env = (.ok item, src', env') ∧ src'.Ahead others rest ∧
      (env' = env ∨ ∃ src1 : Source, src1.announce hooks env = (none, env'))) ∨
    ∃ failure src' env', src.nextWord hooks env = (.error failure, src', env') ∧
      ∃ src1 : Source, src1.announce hooks env = (some failure, env') := by
  cases hbuffer : src.buffer with
  | some words =>
      obtain ⟨hitem, hahead⟩ := h.popWord (by rw [hbuffer]; rfl)
      refine Or.inl ⟨src.popWord.2, env, ?_, hahead, Or.inl rfl⟩
      rw [Source.nextWord, isEmpty, hbuffer, ← hitem]
      rfl
  | none =>
      obtain ⟨stream, hstreams, hrest⟩ := h
      rw [marked_of_none hbuffer, List.nil_append] at hrest
      obtain ⟨src1, hqueue, hread⟩ := readLine_of_streams hstreams hooks env
      cases hlines : stream.lines with
      | nil => simp [Stream.items_of_nil hlines] at hrest
      | cons line lines =>
          rcases hannounce : src1.announce hooks env with ⟨_ | failure, env'⟩
          · have hline : src.readLine hooks env = (none, src1.take stream line lines, env') := by
              rw [hread, readOn, attempt, hannounce, hlines]
            have hahead : (src1.take stream line lines).Ahead others (item :: rest) := by
              refine ⟨{ stream with lines }, by simp [streams, take, hqueue], ?_⟩
              rw [hrest, Stream.items_of_cons hlines]
              rfl
            obtain ⟨hitem, hahead⟩ := hahead.popWord rfl
            refine Or.inl ⟨_, env', ?_, hahead, Or.inr ⟨src1, hannounce⟩⟩
            rw [nextWord_of_line hbuffer hline, hitem]
          · refine Or.inr ⟨failure, src1, env', nextWord_of_failure hbuffer ?_, src1, hannounce⟩
            rw [hread, readOn, attempt, hannounce]

/-- A line that was read is the next of the current stream, or comes from a stream behind it. -/
lemma readOn_eq_ok (h : src.readOn hooks stream env = (none, src', env')) :
    (∃ line lines, stream.lines = line :: lines ∧ src' = src.take stream line lines) ∨
      ∃ env1, stream.lines = [] ∧ readQueued hooks src.queue src env1 = (none, src', env') := by
  rw [readOn, attempt] at h
  generalize src.announce hooks env = announced at h
  obtain ⟨_ | failure, env1⟩ := announced
  · cases hlines : stream.lines with
    | cons line lines =>
        rw [hlines] at h
        cases h
        exact Or.inl ⟨line, lines, rfl, rfl⟩
    | nil =>
        rw [hlines] at h
        cases hfailure : stream.failure with
        | none =>
            rw [hfailure] at h
            exact Or.inr ⟨env1, rfl, h⟩
        | some failure =>
            rw [hfailure] at h
            cases h
  · cases h

lemma length_streams_readQueued (h : readQueued hooks queue src env = (none, src', env')) :
    src'.streams.length ≤ queue.length := by
  induction queue generalizing src env with
  | nil => cases h
  | cons stream queue ih =>
      rw [readQueued_cons] at h
      rcases readOn_eq_ok h with ⟨line, lines, -, rfl⟩ | ⟨env1, -, hqueued⟩
      · simp [streams, take, begun]
      · exact Nat.le_succ_of_le (ih hqueued)

/-- If nothing is ahead any more, whatever is read next is read from the other streams. -/
lemma Ahead.nextWord_nil (h : src.Ahead others [])
    (hnext : src.nextWord hooks env = (.ok word, src', env')) :
    src'.streams.length ≤ others.length := by
  obtain ⟨hbuffer, stream, hstreams, hnil⟩ := h.of_nil
  obtain ⟨src1, hqueue, hread⟩ := readLine_of_streams hstreams hooks env
  rcases hline : src.readLine hooks env with ⟨_ | failure, src2, env2⟩
  · rw [nextWord_of_line hbuffer hline] at hnext
    cases hnext
    rw [streams_popWord]
    rcases readOn_eq_ok (hread.symm.trans hline) with ⟨line, lines, hlines, -⟩ | ⟨env1, -, hqueued⟩
    · rw [hnil] at hlines
      cases hlines
    · exact hqueue ▸ length_streams_readQueued hqueued
  · rw [nextWord_of_failure hbuffer hline] at hnext
    cases hnext

end Source

namespace Machine

variable {α : Type} {m m' m1 m₀ : Machine} {d : Dictionary} {others : List Stream}
    {item : Option Text}
  {items : List (Option Text)} {name : Text}

/-! ## Once the next stream is begun -/

/-- Something has been read from the streams `others`. -/
def Past (others : List Stream) (m : Machine) : Prop := m.input.streams.length ≤ others.length

lemma Happens.length_streams {e : Event} (h : Happens m e m') :
    m'.input.streams.length ≤ m.input.streams.length := by
  cases h with
  | line hstream => simp [Source.streams, Source.take, hstream]
  | opened hqueue => simp [Source.streams, Source.begun, hqueue]
  | exhausted | nothing => simp [Source.streams]
  | _ => exact Nat.le_refl _

/-- **A stream is never taken up again.**  The induction is over what happens. -/
lemma Story.length_streams {moments : List Moment} (h : Story m moments m') :
    m'.input.streams.length ≤ m.input.streams.length := by
  induction h with
  | done => exact Nat.le_refl _
  | silently hsilent _ ih =>
      rw [hsilent.input] at ih
      exact ih
  | event hevent _ ih => exact Nat.le_trans ih hevent.length_streams

lemma Composed.past {act : Act α} (hact : Composed act) (h : Past others m) :
    Does act m (fun _ => Past others) fun _ => Past others := by
  refine (hact.recounted m).imp (fun _ m' htold => ?_) fun i m' hbroken => ?_
  · obtain ⟨moments, hstory, -⟩ := htold
    exact Nat.le_trans hstory.length_streams h
  · cases hbroken with
    | halt htold | other _ htold =>
        obtain ⟨moments, hstory, -⟩ := htold
        exact Nat.le_trans hstory.length_streams h

/-! ## Reading what is ahead -/

/-- What happens before a line is read does not fail, and never will. -/
def Trusted (c : Console) : Prop := ∃ P, Announced P ∧ P c

lemma Trusted.announce {c c' : Console} {mode : Mode} {src : Source} {failure? : Option Failure}
    (h : Trusted c) (hannounce : src.announce (Console.hooks mode) c = (failure?, c')) :
    failure? = none ∧ Trusted c' := by
  obtain ⟨P, hP, hc⟩ := h
  obtain ⟨c1, hnone, hc1⟩ := hP mode src c hc
  rw [hannounce] at hnone
  cases hnone
  exact ⟨rfl, P, hP, hc1⟩

lemma nextWord_ahead (h : m.input.Ahead others (item :: items)) :
    (∃ m', nextWord m = .ok item m' ∧ m'.input.Ahead others items ∧
      (Trusted m.console → Trusted m'.console)) ∨
      ∃ cause m', nextWord m = .error (.halt cause) m' ∧ ¬ Trusted m.console := by
  rcases h.nextWord (Console.hooks m.engine.mode) m.console with
    ⟨src, c, hnext, hahead, hc⟩ | ⟨failure, src, c, hnext, src1, hannounce⟩
  · have htrusted : Trusted m.console → Trusted c := by
      rcases hc with rfl | ⟨src1, hannounce⟩
      · exact id
      · exact fun h => (h.announce hannounce).2
    refine Or.inl ?_
    rw [nextWord_eq, hnext]
    cases item with
    | none => exact ⟨_, rfl, hahead, htrusted⟩
    | some w =>
        exact ⟨_, rfl, by rw [input_noted]; exact hahead, by rw [console_noted]; exact htrusted⟩
  · obtain ⟨-, -, m', hhalt, -⟩ :=
      halt_some (α := Option Text) failure { m with input := src, console := c }
    refine Or.inr ⟨some failure, m', ?_, fun htrusted => ?_⟩
    · rw [nextWord_eq, hnext]
      exact hhalt
    · cases (htrusted.announce hannounce).1

lemma past_of_nextWord {word : Option Text} (h : m.input.Ahead others [])
    (hnext : nextWord m = .ok word m1) :
    Past others m1 := by
  rw [nextWord_eq] at hnext
  generalize hread : m.input.nextWord (Console.hooks m.engine.mode) m.console = read at hnext
  obtain ⟨failure | _ | w, src, c⟩ := read
  · exact absurd hnext (broken_halt _ _ _ _)
  · cases hnext
    exact h.nextWord_nil hread
  · cases hnext
    rw [Past, input_noted]
    exact h.nextWord_nil hread

/-! ## Learning -/

/-- In the top level loop, `items` are ahead before the streams `others`, and they lead to the
dictionary `d`. -/
structure Learning (d : Dictionary) (others : List Stream) (items : List (Option Text))
    (m : Machine) : Prop where
  running : m.engine.running = true
  fn : m.engine.fn = bootId
  ahead : m.input.Ahead others items
  taught : m.engine.dict.taught m.engine.defining items = some d

lemma Learning.becomes {pc : ℤ} (h : Learning d others items m)
    (hm' : Becomes m { m.engine with pc := pc } m') :
    Learning d others items m' := by
  obtain ⟨hrunning, hfn, hahead, htaught⟩ := h
  rw [← hm'.input] at hahead
  refine ⟨?_, ?_, hahead, ?_⟩ <;> rw [hm'.engine] <;> assumption

lemma dispatch_colon_of_error {i : Interrupt} (hm : m.IsSound) (hmode : m.engine.mode = .execute)
    (hname : nextWord { m with engine := { m.engine with mode := .compile } } = .error i m1) :
    dispatch (utf8 ":") m = .error i m1 := by
  rw [dispatch_colon hm hmode]
  refine bind_of_error ?_
  rw [define_eq]
  exact bind_of_error (nextName_of_error hname)

/-- What is ahead after an action leads to the dictionary `d`, or else the action was broken off,
because something failed that happens before a line is read. -/
def LearnsOn (d : Dictionary) (others : List Stream) (items : List (Option Text)) (act : Act α)
    (m : Machine) (a : α) : Prop :=
  (∃ rest m', act m = .ok a m' ∧ Learning d others rest m' ∧ rest.length ≤ items.length ∧
    (Trusted m.console → Trusted m'.console)) ∨
  ∃ cause m', act m = .error (.halt cause) m' ∧ ¬ Trusted m.console

section Dispatch

variable {w : Text} (hm : m.IsSound) (hrunning : m.engine.running = true)
    (hfn : m.engine.fn = bootId)
  (hahead : m.input.Ahead others items)
include hm hrunning hfn hahead

/-- Within a definition, a word is compiled, or closes the definition. -/
lemma learnsOn_dispatch_compiling {target : FuncId} (hw : w.IsWord)
    (hdefining : m.engine.defining = some target)
    (htaught : m.engine.dict.taught (some target) (some w :: items) = some d) :
    LearnsOn d others items (dispatch w) m true := by
  rw [Dictionary.taught] at htaught
  refine Or.inl ⟨items, ?_⟩
  split_ifs at htaught with hsemicolon
  · subst hsemicolon
    obtain ⟨f, -, hopened⟩ := hm.engine.opened? hdefining
    obtain ⟨m', hdispatch, hm'⟩ := dispatch_semicolon hm
    rw [Engine.closed, hopened] at hm'
    refine ⟨m', hdispatch, ⟨?_, ?_, by rw [hm'.input]; exact hahead, ?_⟩,
      Nat.le_refl _, by rw [hm'.console]; exact id⟩
    all_goals rw [hm'.engine]; assumption
  · have hcompile := dispatch_compiling hm hw hsemicolon hdefining
    obtain ⟨i, hi, htaught⟩ := Option.bind_eq_some_iff.mp htaught
    rw [hi] at hcompile
    obtain ⟨m', hdispatch, hm'⟩ := hcompile
    refine ⟨m', hdispatch, ⟨?_, ?_, by rw [hm'.input]; exact hahead, ?_⟩,
      Nat.le_refl _, by rw [hm'.console]; exact id⟩
    · rw [hm'.engine]; exact hrunning
    · rw [hm'.engine]; exact hfn
    · rw [hm'.engine]
      dsimp only
      rw [hdefining]
      exact htaught

/-- Between definitions, `:` and a new name open one. -/
lemma learnsOn_dispatch_idle (hdefining : m.engine.defining = none)
    (htaught : m.engine.dict.taught none (some w :: items) = some d) :
    LearnsOn d others items (dispatch w) m true := by
  have hmode := hm.engine.execute_of_defining hdefining
  obtain ⟨name, rest, rfl, rfl, hnew, htaught⟩ :
      ∃ name rest, w = utf8 ":" ∧ items = some name :: rest ∧ m.engine.dict.find? name = none ∧
      (m.engine.dict.add name).taught (some m.engine.dict.nextId) rest = some d := by
    rw [Dictionary.taught.eq_def] at htaught
    dsimp only at htaught
    split at htaught
    · split_ifs at htaught with hcolon
      exact ⟨_, _, hcolon.1, rfl, hcolon.2, htaught⟩
    · cases htaught
  rcases nextWord_ahead (m := { m with engine := { m.engine with mode := .compile } }) hahead with
    ⟨m1, hname, hahead1, htrusted⟩ | ⟨cause, m1, hname, htrusted⟩
  · obtain ⟨m', hdispatch, hm'⟩ := dispatch_colon_of_name hm hmode (nextName_of_word hname) hnew
    refine Or.inl ⟨rest, m', hdispatch, ⟨?_, ?_, by rw [hm'.input]; exact hahead1, ?_⟩, by simp,
      by rw [hm'.console]; exact htrusted⟩
    all_goals rw [hm'.engine]; assumption
  · exact Or.inr ⟨cause, m1, dispatch_colon_of_error hm hmode hname, htrusted⟩

end Dispatch

namespace Learning

/-- **The step lemma.**  A word or a line end that is ahead is read. -/
lemma read (h : Learning d others (item :: items) m) (hm : m.IsSound) :
    LearnsOn d others items Machine.read m item.isSome := by
  rcases nextWord_ahead h.ahead with ⟨m1, hnext, hahead, htrusted⟩ | ⟨cause, m1, hnext, htrusted⟩
  · have hengine := ((talks_nextWord m).of_ok hnext).1
    have hrunning : m1.engine.running = true := by rw [hengine, h.running]
    have hfn : m1.engine.fn = bootId := by rw [hengine, h.fn]
    have htaught := h.taught
    rw [← hengine] at htaught
    cases item with
    | none =>
        exact Or.inl ⟨items, m1, bind_of_ok hnext, ⟨hrunning, hfn, hahead, htaught⟩, Nat.le_refl _,
          htrusted⟩
    | some w =>
        have hm1 := talks_nextWord.isSound hm hnext
        have hdispatch : LearnsOn d others items (dispatch w) m1 true := by
          cases hdefining : m1.engine.defining with
          | none =>
              exact learnsOn_dispatch_idle hm1 hrunning hfn hahead hdefining
                (by rw [← hdefining]; exact htaught)
          | some target =>
              exact learnsOn_dispatch_compiling hm1 hrunning hfn hahead
                (isWord_of_nextWord hm.input hnext) hdefining
                (by rw [← hdefining]; exact htaught)
        rcases hdispatch with
          ⟨rest, m', hok, hlearning, hless, htrusted'⟩ | ⟨cause, m', hbroken, htrusted'⟩
        · exact Or.inl ⟨rest, m', read_of_word hnext hok, hlearning, hless, htrusted' ∘ htrusted⟩
        · exact Or.inr ⟨cause, m', (bind_of_ok hnext).trans hbroken, htrusted' ∘ htrusted⟩
  · exact Or.inr ⟨cause, m1, bind_of_error hnext, htrusted⟩

/-- If nothing is ahead any more, the next stream is begun. -/
lemma read_nil (h : Learning d others [] m) :
    Does Machine.read m (fun _ => Past others) fun i m' => Past others m' ∨
      ∃ cause, i = .halt cause := by
  rw [Machine.read, does_bind]
  cases hnext : nextWord m with
  | ok word m1 =>
      have hpast := past_of_nextWord h.ahead hnext
      refine does_of_ok hnext ?_
      cases word with
      | none => exact hpast
      | some w =>
          exact ((composed_dispatch w).past hpast).imp (fun _ _ h => h) fun _ _ h => Or.inl h
  | error i m1 => exact does_of_error hnext (Or.inr ((talks_nextWord m).of_error hnext).1)

/-- A line is read, as far as the text goes.  The induction is over what is ahead. -/
lemma prompt (h : Learning d others items m) (hm : m.IsSound) (hat : m.engine.control = onPrompt) :
    Does Machine.prompt m (fun _ m' => Past others m' ∨ ∃ rest, Learning d others rest m')
      fun i m' => Past others m' ∨ ∃ cause, i = .halt cause := by
  induction hlength : items.length using Nat.strongRecOn generalizing items m with
  | _ n ih =>
    cases items with
    | nil =>
        rcases hread : Machine.read m with ⟨_ | _, m'⟩ | ⟨i, m'⟩
        · exact does_of_ok (prompt_ended h.running hread) (Or.inl (h.read_nil.of_ok hread))
        · refine ((composed_prompt.past (h.read_nil.of_ok hread)).congr
            (prompt_again h.running hread)).imp ?_ ?_
          · exact fun _ _ => Or.inl
          · exact fun _ _ => Or.inl
        · exact does_of_error (prompt_broken h.running hread) (h.read_nil.of_error hread)
    | cons item items =>
        rcases h.read hm with ⟨rest, m', hread, hlearning, hless, -⟩ | ⟨cause, m', hread, -⟩
        · cases item with
          | none => exact does_of_ok (prompt_ended h.running hread) (Or.inr ⟨rest, hlearning⟩)
          | some w =>
              obtain ⟨hm', hat'⟩ := (isSound_read hm hat).of_ok hread
              simp only [List.length_cons] at hlength
              exact (ih rest.length (by omega) hlearning hm' (hat' rfl) rfl).congr
                (prompt_again h.running hread)
        · exact does_of_error (prompt_broken h.running hread) (Or.inr ⟨cause, rfl⟩)

end Learning

/-- The machine is learning, or is past it. -/
def Learns (d : Dictionary) (others : List Stream) (m : Machine) : Prop :=
  Past others m ∨ ∃ items, Learning d others items m

lemma Learns.instruct (h : Learns d others m) (hm : m.IsSound)
    (hinstruct : Machine.instruct m = .ok () m') :
    Learns d others m' := by
  rcases h with hpast | ⟨items, h⟩
  · exact Or.inl ((composed_instruct.past hpast).of_ok hinstruct)
  obtain ⟨hframes, hpc | hpc⟩ : m.engine.frames = [] ∧ (m.engine.pc = -1 ∨ m.engine.pc = 0) := by
    rcases hm.engine.active.inv with ⟨-, hframes, hpc⟩ | ⟨_, _, _, _, hspot, -, -⟩
    · exact ⟨hframes, hpc⟩
    · exact absurd h.fn hspot.finished.ne_boot
  -- the prompt
  · obtain ⟨m1, hm1, hstep⟩ := step_prompt ⟨hm.engine.get?_boot, h.fn, hpc⟩
    have hsound : m1.IsSound := hm1.isSound hm (hm.engine.top h.fn hframes (Or.inr rfl))
    have hat : m1.engine.control = onPrompt := by
      rw [hm1.engine, Engine.control, h.fn, hframes]
      rfl
    have hdoes := (h.becomes hm1).prompt hsound hat
    rw [Machine.instruct, bind_apply, attempt, hstep] at hinstruct
    rcases hprompt : Machine.prompt m1 with ⟨_, m2⟩ | ⟨what | cause | payload | _, m2⟩
    all_goals rw [hprompt] at hinstruct
    · cases hinstruct
      exact hdoes.of_ok hprompt
    · rcases hdoes.of_error hprompt with hpast | ⟨cause, hcause⟩
      · exact Or.inl (((composed_recover what).past hpast).of_ok hinstruct)
      · cases hcause
    all_goals cases hinstruct
  -- the jump back
  · obtain ⟨m1, hm1, hstep⟩ := step_jump ⟨hm.engine.get?_boot, h.fn, hpc⟩
    rw [Machine.instruct, bind_apply, attempt, hstep] at hinstruct
    cases hinstruct
    exact Or.inr ⟨items, h.becomes hm1⟩

/-! ## A whole text -/

namespace TopLevel

/-- If nothing fails, the machine comes to the top level again after a word or a line end. -/
lemma exists_learning (htop : TopLevel m₀ m) (hm₀ : m₀.IsSound)
    (h : Learning d others (item :: items) m) (htrusted : Trusted m.console) :
    ∃ rest m', TopLevel m₀ m' ∧ Learning d others rest m' ∧ rest.length ≤ items.length ∧
      Trusted m'.console := by
  obtain ⟨hm, hat⟩ := htop.isSound hm₀
  cases item with
  | some w =>
      rcases h.read hm with ⟨rest, m', hread, hlearning, hless, hkept⟩ | ⟨_, _, _, hnot⟩
      · exact ⟨rest, m', htop.word h.running hread, hlearning, hless, hkept htrusted⟩
      · exact absurd htrusted hnot
  | none =>
      rcases nextWord_ahead h.ahead with ⟨m1, hnext, hahead, hkept⟩ | ⟨_, _, _, hnot⟩
      · obtain ⟨m', hover, hinput, hconsole⟩ := exists_lineOver hm hat hnext
        refine ⟨items, m', htop.line hm₀ h.running hover, ⟨?_, ?_, ?_, ?_⟩, Nat.le_refl _, ?_⟩
        · rw [hover.engine, h.running]
        · rw [hover.engine, h.fn]
        · rw [hinput]
          exact hahead
        · rw [hover.engine]
          exact h.taught
        · rw [hconsole]
          exact hkept htrusted
      · exact absurd htrusted hnot

/-- The induction is over what is ahead. -/
lemma exists_hasRead (htop : TopLevel m₀ m) (hm₀ : m₀.IsSound) (h : Learning d others items m)
    (htrusted : Trusted m.console) : ∃ m', TopLevel m₀ m' ∧ m'.input.HasRead others := by
  induction hlength : items.length using Nat.strongRecOn generalizing items m with
  | _ n ih =>
    cases items with
    | nil => exact ⟨m, htop, h.ahead.hasRead⟩
    | cons item items =>
        obtain ⟨rest, m', htop', h', hless, htrusted'⟩ := htop.exists_learning hm₀ h htrusted
        simp only [List.length_cons] at hlength
        exact ih rest.length (by omega) htop' h' htrusted' rfl

end TopLevel

section Text

variable {stream : Stream} (hm₀ : m₀.Fresh) (hqueue : m₀.input.queue = stream :: others)
  (htaught : Dictionary.initial.taught none stream.items = some d)
include hm₀ hqueue htaught

lemma Fresh.learning : Learning d others stream.items (m₀.indent true) := by
  have hengine : (m₀.indent true).engine = { initial.engine with limit := m₀.engine.limit } :=
    hm₀.engine
  refine ⟨by rw [hengine]; rfl, by rw [hengine]; rfl,
    ⟨stream, ?_, ?_⟩, by rw [hengine]; exact htaught⟩
  · change m₀.input.current.toList ++ m₀.input.queue = _
    rw [hm₀.current, hqueue]
    rfl
  · rw [show (m₀.indent true).input.marked = [] from Source.marked_of_none hm₀.buffer]
    rfl

lemma TopLevel.learns (htop : TopLevel m₀ m) : Learns d others m := by
  induction htop with
  | @enter m m' hreach _ _ hm' _ =>
      have hlearns : Learns d others m := by
        refine hreach.induction (Or.inr ⟨_, hm₀.learning hqueue htaught⟩) ?_
        intro a b ha _ hinstruct hlearns
        exact hlearns.instruct (isSound_of_reaches hm₀.isSound ha) hinstruct
      rcases hlearns with hpast | ⟨items, hlearning⟩
      · refine Or.inl ?_
        rw [Past, hm'.input]
        exact hpast
      · exact Or.inr ⟨items, hlearning.becomes hm'⟩
  | @word m m' htop _ hread ih =>
      have hm := (htop.isSound hm₀.isSound).1
      rcases ih with hpast | ⟨_ | ⟨item, items⟩, hlearning⟩
      · exact Or.inl ((composed_read.past hpast).of_ok hread)
      · exact Or.inl (hlearning.read_nil.of_ok hread)
      · rcases hlearning.read hm with ⟨rest, m1, hread', hlearning', -⟩ | ⟨cause, m1, hread', -⟩
        · rw [hread] at hread'
          obtain ⟨-, rfl⟩ := EStateM.Result.ok.inj hread'
          exact Or.inr ⟨rest, hlearning'⟩
        · rw [hread] at hread'
          cases hread'

/-- **Once the text has been read, the dictionary is the one that it teaches.** -/
lemma TopLevel.dict_of_hasRead (htop : TopLevel m₀ m) (hread : m.input.HasRead others) :
    m.engine.dict = d ∧ m.engine.mode = .execute ∧ m.engine.running = true := by
  have hm := (htop.isSound hm₀.isSound).1
  rcases htop.learns hm₀ hqueue htaught with hpast | ⟨items, h⟩
  · obtain ⟨-, s, hstreams, -⟩ := hread
    rw [Past, hstreams] at hpast
    simp at hpast
  · have hend : m.engine.dict.taught m.engine.defining [] = some d := by
      have hend := h.taught
      rcases h.ahead.of_hasRead hread with rfl | rfl <;> exact hend
    rw [Dictionary.taught] at hend
    split_ifs at hend with hdefining
    cases hend
    exact ⟨rfl, hm.engine.execute_of_defining (Option.isNone_iff_eq_none.mp hdefining), h.running⟩

/-- **The text gets read**, if nothing fails that happens before a line is read. -/
lemma exists_hasRead (htrusted : Trusted m₀.console) :
    ∃ m, TopLevel m₀ m ∧ m.input.HasRead others := by
  have hlearning := hm₀.learning hqueue htaught
  have hpc : (m₀.indent true).engine.pc = -1 := by
    change m₀.engine.pc = -1
    rw [hm₀.engine]
    rfl
  obtain ⟨m, hm, hstep⟩ :=
    step_prompt (m := m₀.indent true) ⟨hm₀.isSound.engine.get?_boot, hlearning.fn, hpc⟩
  have htop : TopLevel m₀ m := .enter ⟨0, .background, _, rfl⟩ hlearning.fn hpc hm hstep
  exact htop.exists_hasRead hm₀.isSound (hlearning.becomes hm) (by rw [hm.console]; exact htrusted)

end Text

end Machine

end ColonMachine
