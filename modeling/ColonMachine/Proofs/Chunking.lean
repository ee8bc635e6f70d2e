import ColonMachine.Log.LineWriter
import Mathlib.Tactic.Common

/-!
# Messages do not depend on chunks

A line writer is given bytes in chunks, and chunks end anywhere: in the middle of a line, behind it,
or behind many.  What it has logged is nevertheless determined by the bytes alone, and by where it
was flushed.

* `Text.complete` are the pieces of a text that have a line break behind them and `Text.trailing` is
  the piece behind the last one.  Both are additive in the sense of `complete_append` and
  `trailing_append`: of what has been read, nothing but the trailing piece matters to what follows.
* One round of the loop takes off one line (`drain_line`), so the loop leaves the trailing piece and
  logs all others (`drain_false`), or logs that as well (`drain_true`).  Hence two writes are one
  (`write_write`).
* A sequence of calls falls into runs of writes, with a flush between neighbours.  One run is one
  write (`foldl_perform_of_run`), and the induction over a sequence goes from one flush to the next.

The main result is `messages_of_runs`.
-/

namespace ColonMachine

/-! ## The pieces between line breaks -/

namespace Text

/-- The pieces of a text that a line break stands behind. -/
def complete (t : Text) : List Text := (t.splitOn newline).dropLast

/-- The piece of a text behind its last line break. -/
def trailing (t : Text) : Text := (t.splitOn newline).getLast (List.splitOn_ne_nil newline t)

variable {t line : Text}

lemma complete_of_notMem (h : newline ∉ t) : t.complete = [] := by
  simp [complete, List.splitOn_eq_singleton h]

lemma trailing_of_notMem (h : newline ∉ t) : t.trailing = t := by
  simp [trailing, List.splitOn_eq_singleton h]

lemma complete_line (h : newline ∉ line) (rest : Text) :
    complete (line ++ newline :: rest) = line :: complete rest := by
  simp [complete, List.splitOn_append_cons_self_of_not_mem h,
    List.dropLast_cons_of_ne_nil (List.splitOn_ne_nil newline rest)]

lemma trailing_line (h : newline ∉ line) (rest : Text) :
    trailing (line ++ newline :: rest) = trailing rest := by
  simp [trailing, List.splitOn_append_cons_self_of_not_mem h,
    List.getLast_cons (List.splitOn_ne_nil newline rest)]

lemma newline_notMem_trailing (t : Text) : newline ∉ t.trailing := by
  induction t using lineInduction with
  | last t h => rwa [trailing_of_notMem h]
  | line line rest h ih => rwa [trailing_line h]

/-- **Only the trailing piece of what was read matters to what comes next.** -/
lemma complete_append (s t : Text) :
    complete (s ++ t) = s.complete ++ complete (s.trailing ++ t) := by
  induction s using lineInduction with
  | last s h => simp [complete_of_notMem h, trailing_of_notMem h]
  | line line rest h ih => simp [complete_line h, trailing_line h, ih]

lemma trailing_append (s t : Text) : trailing (s ++ t) = trailing (s.trailing ++ t) := by
  induction s using lineInduction with
  | last s h => rw [trailing_of_notMem h]
  | line line rest h ih => simp [trailing_line h, ih]

/-- What is logged of a text that nothing follows: its trailing piece is a line as well, if it is
not empty. -/
def flushed (t : Text) : List Text := t.complete ++ if t.trailing = [] then [] else [t.trailing]

lemma flushed_line (h : newline ∉ line) (rest : Text) :
    flushed (line ++ newline :: rest) = line :: flushed rest := by
  simp [flushed, complete_line h, trailing_line h]

lemma flushed_trailing (t : Text) : t.complete ++ flushed t.trailing = flushed t := by
  have h := newline_notMem_trailing t
  simp [flushed, complete_of_notMem h, trailing_of_notMem h]

end Text

/-! ## The loop -/

namespace LineWriter

open Text (newline complete trailing flushed)

variable {line : Text} {w : LineWriter}

lemma takeWhile_append_of_notMem (h : newline ∉ line) (rest : Text) :
    (line ++ rest).takeWhile (· != newline) = line ++ rest.takeWhile (· != newline) := by
  refine List.takeWhile_append_of_pos fun b hb => ?_
  simpa using fun heq : b = newline => h (heq ▸ hb)

/-- One round takes off one line and its line break. -/
lemma drain_line (all : Bool) (h : newline ∉ line) (rest : Text) (logged : List Text) :
    drain all ⟨line ++ newline :: rest, logged⟩ = drain all ⟨rest, line :: logged⟩ := by
  rw [drain]
  simp [takeWhile_append_of_notMem h, List.drop_length_add_append]

/-- **Without `all`, the loop logs what is complete and leaves the trailing piece.** -/
lemma drain_false (w : LineWriter) :
    drain false w = ⟨trailing w.pending, (complete w.pending).reverse ++ w.logged⟩ := by
  rcases w with ⟨pending, logged⟩
  induction pending using Text.lineInduction generalizing logged with
  | last t h =>
      rw [drain]
      simp [h, Text.complete_of_notMem h, Text.trailing_of_notMem h]
  | line line rest h ih =>
      rw [drain_line false h, ih]
      simp [Text.complete_line h, Text.trailing_line h]

/-- **With `all`, the loop logs the trailing piece as well, and leaves nothing.** -/
lemma drain_true (w : LineWriter) :
    drain true w = ⟨[], (flushed w.pending).reverse ++ w.logged⟩ := by
  rcases w with ⟨pending, logged⟩
  induction pending using Text.lineInduction generalizing logged with
  | last t h =>
      have hall : t.takeWhile (· != newline) = t := by simpa using takeWhile_append_of_notMem h []
      rw [drain]
      by_cases hempty : t = []
      · subst hempty
        simp [flushed, Text.complete_of_notMem h, Text.trailing_of_notMem h]
      · rw [drain]
        simp [hempty, hall, flushed, Text.complete_of_notMem h, Text.trailing_of_notMem h]
  | line line rest h ih =>
      rw [drain_line true h, ih]
      simp [Text.flushed_line h]

lemma write_eq (t : Text) (w : LineWriter) :
    w.write t = ⟨trailing (w.pending ++ t), (complete (w.pending ++ t)).reverse ++ w.logged⟩ := by
  rw [write, drain_false]

lemma newline_notMem_write (t : Text) (w : LineWriter) : newline ∉ (w.write t).pending := by
  rw [write_eq]
  exact Text.newline_notMem_trailing _

/-- **Two chunks are one.** -/
lemma write_write (a b : Text) (w : LineWriter) : (w.write a).write b = w.write (a ++ b) := by
  simp only [write_eq, ← List.append_assoc]
  rw [Text.trailing_append (w.pending ++ a), Text.complete_append (w.pending ++ a)]
  simp

lemma write_nil (h : newline ∉ w.pending) : w.write [] = w := by
  simp [write_eq, Text.complete_of_notMem h, Text.trailing_of_notMem h]

/-! ## Sequences of calls -/

/-- What can be asked of a line writer. -/
inductive Call where
  | write (t : Text)
  | flush
  | close

namespace Call

/-- Does what is asked. -/
def perform : Call → LineWriter → LineWriter
  | write t, w => w.write t
  | flush, w => w.flush
  | close, w => w.close

/-- The bytes that are handed over. -/
def bytes : Call → Text
  | write t => t
  | flush | close => []

/-- Whether the call ends a run of writes. -/
def ends : Call → Bool
  | write _ => false
  | flush | close => true

lemma perform_of_ends {c : Call} (h : c.ends = true) (w : LineWriter) :
    c.perform w = ⟨[], (flushed w.pending).reverse ++ w.logged⟩ := by
  cases c with
  | write t => simp [ends] at h
  | flush => exact drain_true w
  | close => exact drain_true w

end Call

/-- A new line writer after some calls. -/
def after (calls : List Call) : LineWriter := calls.foldl (fun w c => c.perform w) {}

/-- What was written in each run of writes between flushes.  The last run is the one still going
on. -/
def runs (calls : List Call) : List Text := (calls.splitOnP Call.ends).map (·.flatMap Call.bytes)

/-- **A run is one write of all its bytes.** -/
lemma foldl_perform_of_run {run : List Call} (hrun : ∀ c ∈ run, c.ends = false)
    (h : newline ∉ w.pending) :
    run.foldl (fun w c => c.perform w) w = w.write (run.flatMap Call.bytes) := by
  induction run generalizing w with
  | nil => exact (write_nil h).symm
  | cons c run ih =>
      have hc := hrun c List.mem_cons_self
      cases c with
      | write t =>
          have hlater :
              run.foldl (fun w c => c.perform w) (w.write t)
                = (w.write t).write (run.flatMap Call.bytes) :=
            ih (fun c hc => hrun c (List.mem_cons_of_mem _ hc)) (newline_notMem_write t w)
          rw [write_write] at hlater
          exact hlater
      | flush => simp [Call.ends] at hc
      | close => simp [Call.ends] at hc

/-- What a writer with nothing pending has after some calls.  The induction is on the first flush
among them. -/
lemma foldl_perform_of_empty (calls : List Call) (logged : List Text) :
    ∃ ended current, runs calls = ended ++ [current] ∧
      calls.foldl (fun w c => c.perform w) ⟨[], logged⟩
        = ⟨trailing current, (ended.flatMap flushed ++ complete current).reverse ++ logged⟩ := by
  induction hlength : calls.length using Nat.strongRecOn generalizing calls logged with
  | ind n ih =>
      cases hfind : calls.find? Call.ends with
      | none =>
          have hrun : ∀ c ∈ calls, c.ends = false := by simpa using hfind
          refine ⟨[], calls.flatMap Call.bytes, ?_, ?_⟩
          · simp [runs, List.splitOnP_eq_singleton hrun]
          · simp [foldl_perform_of_run (w := ⟨[], logged⟩) hrun (by simp), write_eq]
      | some c =>
          obtain ⟨hc, run, rest, rfl, hbefore⟩ := List.find?_eq_some_iff_append.mp hfind
          have hrun : ∀ c ∈ run, c.ends = false := by simpa using hbefore
          set t := run.flatMap Call.bytes with ht
          obtain ⟨ended, current, hruns, hrest⟩ := ih rest.length
            (by simp only [List.length_append, List.length_cons] at hlength; omega) rest
            ((flushed t).reverse ++ logged) rfl
          refine ⟨t :: ended, current, ?_, ?_⟩
          · rw [runs] at hruns ⊢
            simp [List.splitOnP_append_cons_of_forall_mem hrun c hc, hruns, ht]
          · have hflush :
                c.perform (write t ⟨[], logged⟩) = ⟨[], (flushed t).reverse ++ logged⟩ := by
              rw [Call.perform_of_ends hc, write_eq, ← Text.flushed_trailing t]
              simp
            rw [List.foldl_append, List.foldl_cons, foldl_perform_of_run hrun (by simp), ← ht,
              hflush, hrest]
            simp

lemma newline_notMem_after (calls : List Call) : newline ∉ (after calls).pending := by
  obtain ⟨ended, current, -, hafter⟩ := foldl_perform_of_empty calls []
  rw [after, hafter]
  exact Text.newline_notMem_trailing current

/-- Chunks that come to the same bytes leave the same writer, also to whatever is asked of it
later. -/
lemma after_of_chunks (calls later : List Call) {chunks chunks' : List Text}
    (h : chunks.flatten = chunks'.flatten) :
    after (calls ++ chunks.map .write ++ later) = after (calls ++ chunks'.map .write ++ later) := by
  have hwrites (chunks : List Text) :
      (chunks.map Call.write).foldl (fun w c => c.perform w) (after calls)
      = (after calls).write chunks.flatten := by
    rw [foldl_perform_of_run (by simp [Call.ends]) (newline_notMem_after calls), List.flatMap_map,
      ← List.flatMap_id]
    rfl
  have hsplit (chunks : List Text) : after (calls ++ chunks.map .write ++ later)
      = later.foldl (fun w c => c.perform w) ((after calls).write chunks.flatten) := by
    rw [after, List.foldl_append, List.foldl_append, ← after, hwrites]
  rw [hsplit, hsplit, h]

/-- **The messages do not depend on the chunks.**  After any calls, each run of writes that a flush
has ended has been logged piece by piece, between its line breaks, and what is behind the last of
them only if it is not empty.  Of the run that is going on, that last piece is pending, and all
others have been logged.  So writes that come to the same bytes lead to the same messages. -/
theorem messages_of_runs (calls : List Call) :
    (∃ ended current, runs calls = ended ++ [current] ∧
      (after calls).messages = ended.flatMap flushed ++ complete current ∧
      (after calls).pending = trailing current ∧ newline ∉ (after calls).pending) ∧
    ∀ (chunks chunks' : List Text) (later : List Call), chunks.flatten = chunks'.flatten →
      after (calls ++ chunks.map .write ++ later)
        = after (calls ++ chunks'.map .write ++ later) := by
  refine ⟨?_, fun chunks chunks' later h => after_of_chunks calls later h⟩
  obtain ⟨ended, current, hruns, hafter⟩ := foldl_perform_of_empty calls []
  refine ⟨ended, current, hruns, ?_, ?_, newline_notMem_after calls⟩
  · simp [after, messages, hafter]
  · simp [after, hafter]

theorem messages_of_runs_of_cuts :
    let calls : List Call := [.write (utf8 "> 1 2"), .write (utf8 " +\n\n..."), .flush]
    let chunks := [utf8 "3", [], utf8 "\n> "]
    let chunks' := [utf8 "3\n>", utf8 " "]
    (after calls).messages = [utf8 "> 1 2 +", [], utf8 "..."] ∧ chunks.flatten = chunks'.flatten ∧
      after (calls ++ chunks.map .write ++ [.close])
        = after (calls ++ chunks'.map .write ++ [.close]) := by
  refine ⟨by decide +kernel, by decide, (messages_of_runs _).2 _ _ _ (by decide)⟩

end LineWriter

end ColonMachine
