import Mathlib.Logic.Function.Iterate
import ColonMachine.Proofs.Composition
import ColonMachine.Proofs.Positions
import ColonMachine.Proofs.Spelling
import ColonMachine.Proofs.View

/-!
# A source gives every word once

A source is asked for words one at a time, and asked to drop what is left of a line.  Whatever comes
of that has been laid down by the texts alone: the inputs one after the other, of each input its
lines, of each line its words and then one mark.

* `Text.Lined` says what the lines of a text are and `Text.Divided` what the words of a line are,
  without saying how they are found.  `lines_eq_iff` and `words_eq_iff` say that the source finds
  them.
* `Source.entries` are the lines that a source has not read yet, each with its place, and
  `Source.ending` is what it fails with after them.  Reading a line takes the first entry
  (`opens_readLine`), and that is all that is ever said of the streams.
* `Source.coming` is what a source gives if it is asked for words only, and each word that is asked
  for takes the first off (`coming_iterate`).
* `Source.Account` says which lines have been read after any requests, and which of their words were
  given or dropped.  One request keeps it, so all of them do (`Account.serve`).

The main result is `source_delivery`.
-/

namespace ColonMachine

/-! ## Lines and words -/

namespace Text

/-- The lines of a text: each one ends at a line break, or at the end of the text. -/
inductive Lined : Text → List Text → Prop where
  | nil : Lined [] []
  | last {line : Text} (hne : line ≠ []) (hline : newline ∉ line) : Lined line [line]
  | line {line rest : Text} {lines : List Text} (hline : newline ∉ line) (h : Lined rest lines) :
      Lined (line ++ newline :: rest) ((line ++ [newline]) :: lines)

/-- The words of a line: the stretches without separators that are as long as possible, and not
empty. -/
inductive Divided : List Rune → List Text → Prop where
  | nil : Divided [] []
  | gap {r : Rune} {rest : List Rune} {words : List Text} (hr : Rune.isSeparator r.code = true)
      (h : Divided rest words) : Divided (r :: rest) words
  | last {word : List Rune} (hne : word ≠ [])
      (hword : ∀ r ∈ word, Rune.isSeparator r.code = false) :
      Divided word [word.flatMap Rune.bytes]
  | word {word rest : List Rune} {r : Rune} {words : List Text} (hne : word ≠ [])
      (hword : ∀ r ∈ word, Rune.isSeparator r.code = false) (hr : Rune.isSeparator r.code = true)
      (h : Divided rest words) : Divided (word ++ r :: rest) (word.flatMap Rune.bytes :: words)

lemma lined_lines (t : Text) : Lined t t.lines := by
  induction t using lineInduction with
  | last t hbreak =>
      by_cases hne : t = []
      · subst hne
        exact .nil
      · rw [lines_of_notMem hbreak hne]
        exact .last hne hbreak
  | line line rest hline ih =>
      rw [lines_append_newline hline]
      exact .line hline ih

lemma lines_eq_iff {t : Text} {ls : List Text} : t.lines = ls ↔ Lined t ls := by
  constructor
  · rintro rfl
    exact lined_lines t
  · intro h
    induction h with
    | nil => rfl
    | last hne hline => exact lines_of_notMem hline hne
    | line hline _ ih => rw [lines_append_newline hline, ih]

/-- No rune is read from no bytes. -/
lemma bytes_ne_nil_of_mem_runes {t : Text} {r : Rune} (h : r ∈ t.runes) : r.bytes ≠ [] := by
  induction ht : t.length using Nat.strongRecOn generalizing t with
  | ind n ih =>
      rcases t with _ | ⟨b, rest⟩
      · simp [runes, runesAfter] at h
      · rw [runes_cons] at h
        rcases List.mem_cons.mp h with rfl | h
        · rw [Rune.bytes_leading]
          exact List.cons_ne_nil _ _
        · refine ih _ ?_ h rfl
          simp only [List.length_drop, List.length_cons] at ht ⊢
          omega

/-- The words that are found in a list of runes. -/
def wordsIn (rs : List Rune) : List Text :=
  if (pieces Rune.isSeparator rs).1.isEmpty then (pieces Rune.isSeparator rs).2
  else (pieces Rune.isSeparator rs).1 :: (pieces Rune.isSeparator rs).2

lemma wordsIn_gap {r : Rune} (hr : Rune.isSeparator r.code = true) (rest : List Rune) :
    wordsIn (r :: rest) = wordsIn rest := by
  simp [wordsIn, pieces, hr]

lemma isEmpty_flatMap_bytes {word : List Rune} (hne : word ≠ [])
    (hbytes : ∀ r ∈ word, r.bytes ≠ []) :
    (word.flatMap Rune.bytes).isEmpty = false := by
  obtain ⟨r, rest, rfl⟩ := List.exists_cons_of_ne_nil hne
  simp [hbytes r List.mem_cons_self]

lemma wordsIn_last {word : List Rune} (hne : word ≠ []) (hbytes : ∀ r ∈ word, r.bytes ≠ [])
    (hword : ∀ r ∈ word, Rune.isSeparator r.code = false) :
    wordsIn word = [word.flatMap Rune.bytes] := by
  rw [wordsIn, pieces_unbroken _ hword, isEmpty_flatMap_bytes hne hbytes]
  rfl

lemma wordsIn_word {word : List Rune} {r : Rune} (hne : word ≠ [])
    (hbytes : ∀ r ∈ word, r.bytes ≠ []) (hword : ∀ r ∈ word, Rune.isSeparator r.code = false)
    (hr : Rune.isSeparator r.code = true) (rest : List Rune) :
    wordsIn (word ++ r :: rest) = word.flatMap Rune.bytes :: wordsIn rest := by
  rw [wordsIn, pieces_append _ hr, pieces_unbroken _ hword, isEmpty_flatMap_bytes hne hbytes]
  rfl

/-- What is found is what there is.  The induction goes from one separator to the next. -/
lemma divided_wordsIn {rs : List Rune} (hbytes : ∀ r ∈ rs, r.bytes ≠ []) :
    Divided rs (wordsIn rs) := by
  induction h : rs.length using Nat.strongRecOn generalizing rs with
  | ind n ih =>
      cases hfind : rs.find? (fun r => Rune.isSeparator r.code) with
      | none =>
          have hword : ∀ r ∈ rs, Rune.isSeparator r.code = false := by simpa using hfind
          by_cases hne : rs = []
          · subst hne
            exact .nil
          · rw [wordsIn_last hne hbytes hword]
            exact .last hne hword
      | some r =>
          obtain ⟨hr, word, rest, rfl, hbefore⟩ := List.find?_eq_some_iff_append.mp hfind
          have hword : ∀ r ∈ word, Rune.isSeparator r.code = false := by simpa using hbefore
          have hrest : Divided rest (wordsIn rest) :=
            ih rest.length (by rw [← h]; simp; omega) (fun r hr => hbytes r (by simp [hr])) rfl
          by_cases hne : word = []
          · subst hne
            rw [List.nil_append, wordsIn_gap hr]
            exact .gap hr hrest
          · rw [wordsIn_word hne (fun r hr => hbytes r (by simp [hr])) hword hr]
            exact .word hne hword hr hrest

lemma words_eq_iff {line : Text} {ws : List Text} : line.words = ws ↔ Divided line.runes ws := by
  have hbytes : ∀ r ∈ line.runes, r.bytes ≠ [] := fun r => bytes_ne_nil_of_mem_runes
  change wordsIn line.runes = ws ↔ _
  generalize line.runes = rs at hbytes
  constructor
  · rintro rfl
    exact divided_wordsIn hbytes
  · intro h
    induction h with
    | nil => rfl
    | gap hr _ ih => rw [wordsIn_gap hr, ih fun r hr => hbytes r (List.mem_cons_of_mem _ hr)]
    | last hne hword => exact wordsIn_last hne hbytes hword
    | word hne hword hr _ ih =>
        rw [wordsIn_word hne (fun r hr => hbytes r (by simp [hr])) hword hr,
          ih fun r hr => hbytes r (by simp [hr])]

end Text

/-! ## What is ahead in the streams -/

/-- A text that is read, and what reading past its end fails with. -/
structure Input where
  name : Text
  text : Text
  /-- If there is none, the input simply ends. -/
  failure : Option Failure := none

namespace Input

def stream (input : Input) : Stream :=
  { name := input.name, lines := input.text.lines, failure := input.failure }

/-- The inputs that are ever begun: all up to the first that fails. -/
def reached : List Input → List Input
  | [] => []
  | input :: later => input :: if input.failure.isSome then [] else reached later

/-- The words of all lines that are ever read, line by line. -/
def page (inputs : List Input) : List (List Text) :=
  (reached inputs).flatMap fun input => input.text.lines.map Text.words

/-- What reading fails with in the end. -/
def ending (inputs : List Input) : Failure := (inputs.findSome? Input.failure).getD .endOfInput

end Input

/-- Neither of the hooks ever fails. -/
structure Hooks.Quiet {ε : Type} (hooks : Hooks ε) : Prop where
  prompt : ∀ loc env, (hooks.prompt loc env).1 = none
  flush : ∀ env, (hooks.flush env).1 = none

/-- Hooks that do nothing. -/
def Hooks.silent : Hooks Unit := ⟨fun _ env => (none, env), fun env => (none, env)⟩

lemma Hooks.quiet_silent : Hooks.silent.Quiet := ⟨fun _ _ => rfl, fun _ => rfl⟩

namespace Source

variable {ε : Type} {hooks : Hooks ε} {src : Source} {env : ε}

/-- A line that was read or can be read, and where it stands. -/
structure Entry where
  place : Location
  line : Text

/-- Lines of a stream of which `n` have been read before. -/
def numbered (name : Text) (n : ℕ) (lines : List Text) : List Entry :=
  (lines.zipIdx (n + 1)).map fun entry => ⟨⟨name, entry.2⟩, entry.1⟩

/-- The lines of all streams up to the first that fails. -/
def entriesIn : List Stream → List Entry
  | [] => []
  | stream :: queue =>
    numbered stream.name 0 stream.lines ++ if stream.failure.isSome then [] else entriesIn queue

/-- The lines that can still be read. -/
def entries (src : Source) : List Entry :=
  match src.current with
  | none => entriesIn src.queue
  | some stream =>
    numbered src.last.name src.last.line stream.lines ++
      if stream.failure.isSome then [] else entriesIn src.queue

def endingIn (streams : List Stream) : Failure :=
  (streams.findSome? Stream.failure).getD .endOfInput

/-- What the source fails with after these lines. -/
def ending (src : Source) : Failure := endingIn (src.current.toList ++ src.queue)

/-- What reading a line comes to: the first of the entries is current, or there is none and reading
fails. -/
def Opens (src : Source) (entries : List Entry) (ending : Failure)
    (r : Option Failure × Source × ε) : Prop :=
  r.2.1.ending = ending ∧ match entries with
    | [] => r.1 = some ending ∧ r.2.1.buffer = src.buffer ∧ r.2.1.entries = []
    | entry :: entries => r.1 = none ∧ r.2.1.buffer = some entry.line.words ∧
          r.2.1.last = entry.place ∧
        r.2.1.text = entry.line.trimLineEnd ∧ r.2.1.entries = entries

section Quiet

variable (hquiet : hooks.Quiet)
include hquiet

lemma announce_quiet (src : Source) (env : ε) : ∃ env', src.announce hooks env = (none, env') := by
  have hflush : ∀ env, ∃ env', hooks.flush env = (none, env') :=
    fun env => ⟨_, Prod.ext (hquiet.flush env) rfl⟩
  rw [announce]
  split_ifs
  · have hprompt : hooks.prompt src.last env = (none, (hooks.prompt src.last env).2) :=
      Prod.ext (hquiet.prompt src.last env) rfl
    rw [hprompt]
    exact hflush _
  · exact hflush env

/-- From a stream and, if it is at its end, from those behind it. -/
lemma opens_readOn {stream : Stream} (hcurrent : src.current = some stream)
    (hqueue : ∀ env, Opens src (entriesIn src.queue) (endingIn src.queue)
    (readQueued hooks src.queue src env)) :
    Opens src src.entries src.ending (src.readOn hooks stream env) := by
  obtain ⟨env', hannounce⟩ := announce_quiet hquiet src env
  have hentries : src.entries = numbered src.last.name src.last.line stream.lines ++
      if stream.failure.isSome then [] else entriesIn src.queue := by rw [entries, hcurrent]
  have hending : src.ending = endingIn (stream :: src.queue) := by rw [ending, hcurrent]; rfl
  rw [readOn, attempt, hannounce, hentries, hending]
  cases hlines : stream.lines with
  | cons line rest => exact ⟨rfl, rfl, rfl, rfl, rfl, rfl⟩
  | nil =>
      cases hfailure : stream.failure with
      | none => simpa [numbered, endingIn, hfailure] using hqueue env'
      | some failure => simp [Opens, numbered, endingIn, hfailure, hentries, hending, hlines]

lemma opens_readQueued (queue : List Stream) (src : Source) (env : ε) :
    Opens src (entriesIn queue) (endingIn queue) (readQueued hooks queue src env) := by
  induction queue generalizing src env with
  | nil => exact ⟨rfl, rfl, rfl, rfl⟩
  | cons stream queue ih =>
      have hbegun := ih (src.begun stream queue)
      rw [readQueued_cons]
      exact opens_readOn hquiet rfl hbegun

/-- **Reading a line takes the first entry.** -/
lemma opens_readLine (src : Source) (env : ε) :
    Opens src src.entries src.ending (src.readLine hooks env) := by
  cases hcurrent : src.current with
  | none =>
      rw [readLine_of_none hcurrent, entries, ending, hcurrent]
      exact opens_readQueued hquiet src.queue src env
  | some stream =>
      rw [readLine_of_some hcurrent]
      exact opens_readOn hquiet hcurrent (opens_readQueued hquiet src.queue src)

end Quiet

/-! ## What is coming -/

/-- A line as a source gives it: its words, and one mark. -/
def items (words : List Text) : List (Option Text) := words.map some ++ [none]

/-- An item, and what a source says of its line once the item has been given. -/
structure Reply where
  item : Option Text
  place : Location
  text : Text

def Entry.replies (entry : Entry) : List Reply :=
  (items entry.line.words).map fun item => ⟨item, entry.place, entry.line.trimLineEnd⟩

/-- What the source gives, if it is asked for words only. -/
def coming (src : Source) : List Reply :=
  src.marked.map (fun item => ⟨item, src.last, src.text⟩) ++ src.entries.flatMap Entry.replies

lemma marked_of_some {words : List Text} (h : src.buffer = some words) :
    src.marked = items words := by
  rw [marked, h]
  rfl

lemma marked_of_none (h : src.buffer = none) : src.marked = [] := by rw [marked, h]

lemma coming_of_none (h : src.buffer = none) : src.coming = src.entries.flatMap Entry.replies := by
  rw [coming, marked_of_none h]
  rfl

lemma item_coming (src : Source) :
    src.coming.map (·.item) = src.marked ++ (src.entries.map (·.line.words)).flatMap items := by
  have hreplies : ∀ entry : Entry, entry.replies.map (·.item) = items entry.line.words := by
    intro entry
    rw [Entry.replies, List.map_map]
    exact List.map_id _
  rw [coming, List.map_append, List.map_map, List.map_flatMap, List.flatMap_map]
  simp only [hreplies]
  congr 1
  exact List.map_id _

/-- The source `src1` is `src` where a line is current, which may have to be read first. -/
inductive Ready (src : Source) : Source → Prop where
  | here (h : src.buffer.isSome) : Ready src src
  | opened {src1 : Source} {entry : Entry} (hbuffer : src.buffer = none)
      (hentries : src.entries = entry :: src1.entries)
      (hbuffer1 : src1.buffer = some entry.line.words) (hlast : src1.last = entry.place)
      (htext : src1.text = entry.line.trimLineEnd) (hending : src1.ending = src.ending) :
      Ready src src1

/-- The source fails, and has nothing to give any more. -/
structure Spent (src src1 : Source) : Prop where
  buffer : src.buffer = none
  entries : src.entries = []
  buffer1 : src1.buffer = none
  entries1 : src1.entries = []
  ending : src1.ending = src.ending

lemma nextWord_of_line {src1 : Source} {env1 : ε} (hbuffer : src.buffer = none)
    (hread : src.readLine hooks env = (none, src1, env1)) :
    src.nextWord hooks env = (.ok src1.popWord.1, src1.popWord.2, env1) := by
  rw [nextWord, isEmpty, hbuffer, hread]
  rfl

lemma nextWord_of_failure {src1 : Source} {env1 : ε} {failure : Failure}
    (hbuffer : src.buffer = none) (hread : src.readLine hooks env = (some failure, src1, env1)) :
    src.nextWord hooks env = (.error failure, src1, env1) := by
  rw [nextWord, isEmpty, hbuffer, hread]
  rfl

/-- What asking for a word comes to. -/
lemma nextWord_cases (hquiet : hooks.Quiet) (src : Source) (env : ε) :
    (∃ src1 env1, Ready src src1 ∧
      src.nextWord hooks env = (.ok src1.popWord.1, src1.popWord.2, env1)) ∨
      ∃ src1 env1, Spent src src1 ∧ src.nextWord hooks env = (.error src.ending, src1, env1) := by
  cases hbuffer : src.buffer with
  | some words =>
      exact Or.inl ⟨src, env, .here (by rw [hbuffer]; rfl), by rw [nextWord, isEmpty, hbuffer]; rfl⟩
  | none =>
      obtain ⟨hending, hopens⟩ := opens_readLine hquiet src env
      rcases hread : src.readLine hooks env with ⟨failure?, src1, env1⟩
      rw [hread] at hending hopens
      cases hentries : src.entries with
      | nil =>
          rw [hentries] at hopens
          dsimp only at hopens
          obtain ⟨rfl, hbuffer1, hentries1⟩ := hopens
          exact Or.inr ⟨src1, env1, ⟨hbuffer, hentries, hbuffer1.trans hbuffer, hentries1, hending⟩,
            nextWord_of_failure hbuffer hread⟩
      | cons entry entries =>
          rw [hentries] at hopens
          dsimp only at hopens
          obtain ⟨rfl, hbuffer1, hlast, htext, rfl⟩ := hopens
          exact Or.inl ⟨src1, env1, .opened hbuffer hentries hbuffer1 hlast htext hending,
            nextWord_of_line hbuffer hread⟩

lemma Ready.coming {src1 : Source} (h : Ready src src1) : src.coming = src1.coming := by
  cases h with
  | here => rfl
  | opened hbuffer hentries hbuffer1 hlast htext =>
      rw [coming_of_none hbuffer, hentries, Source.coming, marked_of_some hbuffer1, hlast, htext]
      rfl

lemma Ready.ending {src1 : Source} (h : Ready src src1) : src1.ending = src.ending := by
  cases h with
  | here => rfl
  | opened _ _ _ _ _ hending => exact hending

lemma Ready.isSome {src1 : Source} (h : Ready src src1) : src1.buffer.isSome := by
  cases h with
  | here h => exact h
  | opened _ _ hbuffer1 => rw [hbuffer1]; rfl

/-- Taking a word, or the mark, off the current line leaves all else as it is. -/
lemma popWord_eq (src : Source) : src.popWord.2 = { src with buffer := src.popWord.2.buffer } := by
  rw [popWord]
  split <;> rfl

lemma buffered_popWord (src : Source) :
    src.buffered = src.popWord.1.toList ++ src.popWord.2.buffered := by
  rw [popWord, buffered]
  split <;> simp [*, buffered]

lemma coming_popWord (h : src.buffer.isSome) :
    src.coming
      = ⟨src.popWord.1, src.popWord.2.last, src.popWord.2.text⟩ :: src.popWord.2.coming := by
  obtain ⟨words, hwords⟩ := Option.isSome_iff_exists.mp h
  rw [coming, marked_of_some hwords]
  cases words with
  | nil => simp [popWord, hwords, items, coming, marked, entries]
  | cons word words => simp [popWord, hwords, items, coming, marked, entries]

/-- The first of what is coming is given. -/
lemma nextWord_head (hquiet : hooks.Quiet) (src : Source) (env : ε) : match src.coming.head? with
    | some reply => (src.nextWord hooks env).1 = .ok reply.item ∧
        (src.nextWord hooks env).2.1.last = reply.place ∧
        (src.nextWord hooks env).2.1.text = reply.text
    | none => (src.nextWord hooks env).1 = .error src.ending := by
  rcases nextWord_cases hquiet src env with
    ⟨src1, env1, hready, hnext⟩ | ⟨src1, env1, hspent, hnext⟩
  · rw [hnext, hready.coming, coming_popWord hready.isSome]
    exact ⟨rfl, rfl, rfl⟩
  · rw [hnext, coming_of_none hspent.buffer, hspent.entries]
    rfl

/-- The rest of what is coming stays. -/
lemma coming_nextWord (hquiet : hooks.Quiet) (src : Source) (env : ε) :
    (src.nextWord hooks env).2.1.coming = src.coming.tail ∧
      (src.nextWord hooks env).2.1.ending = src.ending := by
  rcases nextWord_cases hquiet src env with
    ⟨src1, env1, hready, hnext⟩ | ⟨src1, env1, hspent, hnext⟩
  · rw [hnext, hready.coming, coming_popWord hready.isSome, ← hready.ending]
    refine ⟨rfl, ?_⟩
    rw [popWord_eq]
    rfl
  · rw [hnext, coming_of_none hspent.buffer, hspent.entries]
    refine ⟨?_, hspent.ending⟩
    rw [coming_of_none hspent.buffer1, hspent.entries1]
    rfl

/-! ## Requests -/

/-- What can be asked of a source. -/
inductive Request where
  | word
  /-- To drop what is left of the current line. -/
  | discard

def respond (hooks : Hooks ε) : Request → Source × ε → Source × ε
  | .word, s => (s.1.nextWord hooks s.2).2
  | .discard, s => (s.1.discard, s.2)

/-- The words that a request takes off the current line: the one that it gives, or all that it
drops. -/
def taken (hooks : Hooks ε) : Request → Source × ε → List Text
  | .word, s =>
    match (s.1.nextWord hooks s.2).1 with
    | .ok (some word) => [word]
    | _ => []
  | .discard, s => s.1.buffered

/-- The words that a number of requests take off, in their order, and what they leave of the
source. -/
def serve (hooks : Hooks ε) : List Request → Source × ε → List Text × Source × ε
  | [], s => ([], s)
  | request :: requests, s =>
    let served := serve hooks requests (respond hooks request s)
    (taken hooks request s ++ served.1, served.2)

/-- **Each word that is asked for takes the first off what is coming.** -/
lemma coming_iterate (hquiet : hooks.Quiet) (k : ℕ) (s : Source × ε) :
    ((respond hooks .word)^[k] s).1.coming = s.1.coming.drop k ∧
      ((respond hooks .word)^[k] s).1.ending = s.1.ending := by
  induction k with
  | zero => exact ⟨rfl, rfl⟩
  | succ k ih =>
      rw [Function.iterate_succ_apply']
      generalize (respond hooks .word)^[k] s = s' at ih
      obtain ⟨hcoming, hending⟩ := coming_nextWord hquiet s'.1 s'.2
      refine ⟨hcoming.trans ?_, hending.trans ih.2⟩
      rw [ih.1, List.tail_drop]

/-- If it is asked for words only, the source gives the items one by one, and then fails for
ever. -/
def Gives (hooks : Hooks ε) (s : Source × ε) (script : List (Option Text))
    (failure : Failure) : Prop :=
  ∀ k, let s' := (respond hooks .word)^[k] s
    (s'.1.nextWord hooks s'.2).1 = match script[k]? with
      | some item => .ok item
      | none => .error failure

lemma gives_coming (hquiet : hooks.Quiet) (s : Source × ε) :
    Gives hooks s (s.1.marked ++ (s.1.entries.map (·.line.words)).flatMap items) s.1.ending := by
  intro k s'
  obtain ⟨hcoming, hending⟩ := coming_iterate hquiet k s
  have hnext := nextWord_head hquiet s'.1 s'.2
  rw [hcoming, List.head?_drop, hending] at hnext
  rw [← item_coming, List.getElem?_map]
  cases hreply : s.1.coming[k]? with
  | none => rw [hreply] at hnext; exact hnext
  | some reply => rw [hreply] at hnext; exact hnext.1

/-- Of the lines of the page, `done` have been read, and all words of them but those in the buffer
were taken. -/
structure Account (page done : List (List Text)) (words : List Text) (src : Source) : Prop where
  ahead : page = done ++ src.entries.map (·.line.words)
  words : words ++ src.buffered = done.flatten
  current : src.buffered <:+ done.getLastD []

namespace Account

variable {page done : List (List Text)} {words : List Text} {src1 : Source}

lemma ready (h : Account page done words src) (hready : Ready src src1) :
    ∃ done', Account page done' words src1 := by
  cases hready with
  | here => exact ⟨done, h⟩
  | @opened _ entry hbuffer hentries hbuffer1 =>
      have hbuffered : src1.buffered = entry.line.words := by rw [buffered, hbuffer1]; rfl
      refine ⟨done ++ [entry.line.words], ?_, ?_, ?_⟩
      · rw [h.ahead, hentries]
        simp
      · have hwords := h.words
        rw [buffered, hbuffer] at hwords
        simp [hbuffered, ← hwords]
      · simp [hbuffered]

lemma popWord (h : Account page done words src) :
    Account page done (words ++ src.popWord.1.toList) src.popWord.2 := by
  refine ⟨?_, ?_, ?_⟩
  · rw [h.ahead, popWord_eq]
    rfl
  · rw [List.append_assoc, ← buffered_popWord, h.words]
  · refine List.IsSuffix.trans ?_ h.current
    rw [buffered_popWord src]
    exact List.suffix_append _ _

lemma discard (h : Account page done words src) :
    Account page done (words ++ src.buffered) src.discard := by
  refine ⟨h.ahead, ?_, List.nil_suffix⟩
  rw [h.words]
  exact List.append_nil _

lemma spent (h : Account page done words src) (hspent : Spent src src1) :
    Account page done words src1 := by
  have hbuffered : src1.buffered = src.buffered := by
    rw [buffered, buffered, hspent.buffer, hspent.buffer1]
  refine ⟨?_, ?_, ?_⟩
  · rw [hspent.entries1, ← hspent.entries]
    exact h.ahead
  · rw [hbuffered]
    exact h.words
  · rw [hbuffered]
    exact h.current

/-- One request keeps the account. -/
lemma respond (hquiet : hooks.Quiet) {s : Source × ε} (h : Account page done words s.1)
    (request : Request) :
    ∃ done', Account page done' (words ++ taken hooks request s) (respond hooks request s).1 ∧
      (respond hooks request s).1.ending = s.1.ending := by
  cases request with
  | discard => exact ⟨done, h.discard, rfl⟩
  | word =>
      rcases nextWord_cases hquiet s.1 s.2 with
        ⟨src1, env1, hready, hnext⟩ | ⟨src1, env1, hspent, hnext⟩
      · obtain ⟨done', hdone⟩ := h.ready hready
        refine ⟨done', ?_, ?_⟩
        · have htaken : Source.taken hooks .word s = src1.popWord.1.toList := by
            rw [Source.taken, hnext]
            cases src1.popWord.1 <;> rfl
          rw [htaken, Source.respond, hnext]
          exact hdone.popWord
        · rw [Source.respond, hnext, ← hready.ending, popWord_eq]
          rfl
      · refine ⟨done, ?_, ?_⟩
        · rw [Source.taken, Source.respond, hnext]
          simpa using h.spent hspent
        · rw [Source.respond, hnext]
          exact hspent.ending

/-- **Any number of requests keep the account.** -/
lemma serve (hquiet : hooks.Quiet) {s : Source × ε} (requests : List Request)
    (h : Account page done words s.1) :
    ∃ done', Account page done' (words ++ (serve hooks requests s).1) (serve hooks requests s).2.1 ∧
      (serve hooks requests s).2.1.ending = s.1.ending := by
  induction requests generalizing s done words with
  | nil => exact ⟨done, by simpa [Source.serve] using h, rfl⟩
  | cons request requests ih =>
      obtain ⟨done1, h1, hending1⟩ := h.respond hquiet request
      obtain ⟨done', h', hending'⟩ := ih h1
      rw [List.append_assoc] at h'
      exact ⟨done', h', hending'.trans hending1⟩

end Account

lemma tidy_respond {s : Source × ε} (h : s.1.Tidy) (request : Request) :
    (respond hooks request s).1.Tidy := by
  cases request with
  | word => exact tidy_nextWord h
  | discard => exact tidy_discard s.1

lemma tidy_serve (requests : List Request) {s : Source × ε} (h : s.1.Tidy) :
    (serve hooks requests s).2.1.Tidy := by
  induction requests generalizing s with
  | nil => exact h
  | cons request requests ih => exact ih (tidy_respond h request)

/-! ## From the texts to the words -/

lemma line_numbered (name : Text) (n : ℕ) (lines : List Text) :
    (numbered name n lines).map (·.line) = lines := by
  rw [numbered, List.map_map]
  exact List.zipIdx_map_fst (n + 1) lines

lemma entriesIn_inputs (inputs : List Input) :
    entriesIn (inputs.map Input.stream)
      = (Input.reached inputs).flatMap fun input => numbered input.name 0 input.text.lines := by
  induction inputs with
  | nil => rfl
  | cons input inputs ih =>
      rw [List.map_cons, entriesIn, ih, Input.reached, List.flatMap_cons]
      cases hfailure : input.failure <;> simp [Input.stream, hfailure]

lemma words_entriesIn (inputs : List Input) :
    (entriesIn (inputs.map Input.stream)).map (·.line.words) = Input.page inputs := by
  have hwords : ∀ input : Input,
      (numbered input.name 0 input.text.lines).map (·.line.words)
        = input.text.lines.map Text.words := by
    intro input
    conv_rhs => rw [← line_numbered input.name 0 input.text.lines]
    rw [List.map_map]
    rfl
  rw [entriesIn_inputs, Input.page, List.map_flatMap]
  simp only [hwords]

lemma endingIn_inputs (inputs : List Input) :
    endingIn (inputs.map Input.stream) = Input.ending inputs := by
  rw [endingIn, List.findSome?_map]
  rfl

/-- **A source gives every word once.**  Asked for words only, it gives the words of all lines up to
the end of the first input that fails, with a mark after each line, and then fails for ever.  After
any other requests, some lines have been read and the others are ahead.  Of the lines that were
read, each word was given or dropped once, and only the last of them can have words left, which are
in the buffer.  To drop these words leaves the mark and the lines ahead. -/
theorem source_delivery (hquiet : hooks.Quiet) (inputs : List Input) (prompting : Bool) (env : ε) :
    (∀ text lines, Text.lines text = lines ↔ Text.Lined text lines) ∧
    (∀ line words, Text.words line = words ↔ Text.Divided line.runes words) ∧
    Gives hooks ({ queue := inputs.map Input.stream, prompting }, env)
      ((Input.page inputs).flatMap items) (Input.ending inputs) ∧
    ∀ requests,
      let served := serve hooks requests ({ queue := inputs.map Input.stream, prompting }, env)
      let src := served.2.1
      ∃ done ahead, Input.page inputs = done ++ ahead ∧ served.1 ++ src.buffered = done.flatten ∧
        src.buffered <:+ done.getLastD [] ∧
        (src.marked = [] ∨ src.marked = src.buffered.map some ++ [none]) ∧
        (∀ word ∈ src.buffered, word.IsWord) ∧
        Gives hooks served.2 (src.marked ++ ahead.flatMap items) (Input.ending inputs) ∧
        Gives hooks (src.discard, served.2.2) (none :: ahead.flatMap items)
          (Input.ending inputs) := by
  have hentries :
      entries { queue := inputs.map Input.stream, prompting }
        = entriesIn (inputs.map Input.stream) := rfl
  have hending : ending { queue := inputs.map Input.stream, prompting } = Input.ending inputs :=
    endingIn_inputs inputs
  refine ⟨fun _ _ => Text.lines_eq_iff, fun _ _ => Text.words_eq_iff, ?_, ?_⟩
  · rw [← hending, ← words_entriesIn]
    exact gives_coming hquiet _
  · intro requests served src
    have hstart :
        Account (Input.page inputs) [] [] { queue := inputs.map Input.stream, prompting } := by
      refine ⟨?_, rfl, List.nil_suffix⟩
      rw [List.nil_append, hentries, words_entriesIn]
    obtain ⟨done, haccount, hend⟩ := hstart.serve hquiet (s := (_, env)) requests
    rw [hending] at hend
    refine ⟨done, _, haccount.ahead, haccount.words, haccount.current, ?_, ?_, ?_, ?_⟩
    · cases hbuffer : src.buffer with
      | none => exact Or.inl (marked_of_none hbuffer)
      | some words => exact Or.inr (by rw [marked_of_some hbuffer, buffered, hbuffer]; rfl)
    · exact tidy_serve requests (tidy_of_buffer_none rfl)
    · rw [← hend]
      exact gives_coming hquiet served.2
    · rw [← hend]
      exact gives_coming hquiet (src.discard, served.2.2)

/-- Three lines, of which one is empty and one is not ended, and then a line of an input that
fails. -/
theorem source_delivery_of_failing :
    Hooks.silent.Quiet ∧ Gives Hooks.silent
      ({ queue := [⟨utf8 "a", (utf8 "x y\n\nz").lines, none⟩,
        ⟨utf8 "b", (utf8 "w").lines, some .shortWrite⟩, ⟨utf8 "c", (utf8 "v").lines, none⟩] }, ())
      [some (utf8 "x"), some (utf8 "y"), none, none, some (utf8 "z"), none, some (utf8 "w"), none]
        .shortWrite :=
  ⟨Hooks.quiet_silent, (source_delivery Hooks.quiet_silent [⟨utf8 "a", utf8 "x y\n\nz", none⟩,
    ⟨utf8 "b", utf8 "w", some .shortWrite⟩, ⟨utf8 "c", utf8 "v", none⟩] false ()).2.2.1⟩

end Source

end ColonMachine
