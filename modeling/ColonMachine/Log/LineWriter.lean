import ColonMachine.Text.Basic

/-!
# Logging by the line

A line writer takes bytes in pieces of any size and logs one message for each complete line.  What
comes after the last line break is kept until more arrives, or until a flush logs it as it is.
-/

namespace ColonMachine

/-- Something that logs what is written to it line by line. -/
structure LineWriter where
  /-- The beginning of a line that is not complete. -/
  pending : Text := []
  /-- The messages logged, newest first. -/
  logged : List Text := []

namespace LineWriter

/-- Logs what is pending line by line, each without its line break.  What has no line break behind
it stays, or is logged as well if `all` is set. -/
def drain (all : Bool) (w : LineWriter) : LineWriter :=
  if _ : w.pending.isEmpty then w
  else if all || w.pending.contains Text.newline then
    let line := w.pending.takeWhile (· != Text.newline)
    -- the byte behind the line is its line break, if there is one
    drain all { pending := w.pending.drop (line.length + 1), logged := line :: w.logged }
  else w
termination_by w.pending.length
decreasing_by
  rename_i hpending _
  have : w.pending.length ≠ 0 := by simpa using hpending
  simp only [List.length_drop]
  omega

/-- Takes some bytes. -/
def write (t : Text) (w : LineWriter) : LineWriter :=
  drain false { w with pending := w.pending ++ t }

/-- Logs what is pending, if there is anything. -/
def flush (w : LineWriter) : LineWriter := drain true w

/-- Ends the writing, which logs what is pending. -/
def close (w : LineWriter) : LineWriter := w.flush

/-- The messages logged, oldest first. -/
def messages (w : LineWriter) : List Text := w.logged.reverse

end LineWriter

end ColonMachine
