import ColonMachine.Machine.Basic

/-!
# Speaking

What the console does on its own: handing pieces of output to the route in use, flushing, and
showing the prompt of a mode.  A prompt that begins with a line break loses it right after a
diagnostic, which has just ended a line itself.
-/

namespace ColonMachine

namespace Console

/-- Hands a piece of output to the route in use. -/
def hand (manner : Manner) (piece : Text) (c : Console) : Option Failure × Console :=
  let (written, outlets) := c.outlets.write manner piece c.route
  (written.failure, { c with outlets, reported := false, offered := piece :: c.offered })

/-- Writes a text; nothing happens if it is empty. -/
def write (t : Text) (c : Console) : Option Failure × Console :=
  if t.isEmpty then (none, c) else c.hand .chars t

/-- Prints a text, as one piece. -/
def print (t : Text) (c : Console) : Option Failure × Console := c.hand .bytes t

/-- Flushes the route in use. -/
def flush (c : Console) : Option Failure × Console :=
  let (failure, outlets) := c.outlets.flush c.route
  (failure, { c with outlets })

/-- Flushes what is to be flushed before a line is read. -/
def settle (c : Console) : Option Failure × Console :=
  let (failure, outlets) := c.outlets.flush c.settled
  (failure, { c with outlets })

/-- Shows the prompt of a mode. -/
def showPrompt (mode : Mode) (c : Console) : Option Failure × Console :=
  let prompt := c.prompts.of mode
  c.write (if c.reported then prompt.dropLead [Text.newline] else prompt)

/-- What happens on the console before a line is read in the given mode. -/
def hooks (mode : Mode) : Hooks Console where
  prompt _ := showPrompt mode
  flush := settle

end Console

namespace Trace

/-- Records a message under a mark.  Marks are padded to the widest one seen before. -/
def record (mark message location : Text) (t : Trace) : Trace :=
  let padded := mark.padRight t.markWidth
  let line := padded ++ [Text.space] ++ message
  { t with
    markWidth := max t.markWidth mark.length
    entries := ⟨if t.indented then 9 :: line else line, location⟩ :: t.entries }

end Trace

end ColonMachine
