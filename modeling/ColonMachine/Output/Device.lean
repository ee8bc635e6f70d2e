import ColonMachine.Failure

/-!
# Output devices

A device is where bytes finally go.  What it does with a write may depend on everything that
happened to it before: it may take all of the bytes or only the first of them, and may fail.  So a
device is a policy, which is any function of the history, together with that history.

`Device.limited` is the device that takes bytes up to a fixed total and refuses the rest.
-/

namespace ColonMachine

/-- What came of a write: how many bytes were taken, and the failure if there was one. -/
structure Written where
  /-- How many bytes were taken. -/
  count : Nat
  /-- Why not more were taken. -/
  failure : Option Failure
  deriving DecidableEq

namespace Device

/-- Something that happened to a device. -/
inductive Event where
  /-- A write of which all bytes were taken without a failure. -/
  | wrote (bytes : Text)
  /-- A write of which only these bytes were taken, or which failed. -/
  | refused (taken : Text)
  /-- A flush. -/
  | flushed
  deriving Repr, DecidableEq

/-- The bytes taken in an event. -/
def Event.bytes : Event → Text
  | wrote bytes => bytes
  | refused taken => taken
  | flushed => []

end Device

/-- A place for bytes to go, with all that happened to it. -/
structure Device where
  /-- How many of the offered bytes are taken, and whether the write fails, after a history. -/
  onWrite : List Device.Event → Text → Written
  /-- Whether a flush fails, after a history. -/
  onFlush : List Device.Event → Option Failure
  /-- What has happened so far, newest first. -/
  events : List Device.Event := []

namespace Device

/-- The bytes a device has taken, in order. -/
def received (d : Device) : Text := d.events.reverse.flatMap Event.bytes

/-- Offers bytes to a device. -/
def write (d : Device) (bytes : Text) : Written × Device :=
  let reply := d.onWrite d.events bytes
  let count := min reply.count bytes.length
  let event := if count == bytes.length && reply.failure.isNone then Event.wrote bytes
    else Event.refused (bytes.take count)
  ({ reply with count }, { d with events := event :: d.events })

/-- Flushes a device. -/
def flush (d : Device) : Option Failure × Device :=
  (d.onFlush d.events, { d with events := .flushed :: d.events })

/-- How many bytes were taken in a history. -/
def taken (events : List Event) : Nat := events.foldr (fun e n => e.bytes.length + n) 0

/-- The failure of a device that is full. -/
def full : Failure := .message (utf8 "boom")

/-- The device that takes `limit` bytes in all.  A write over the limit fails, or with `silent` is
only cut short; a flush fails as `flushFailure` says. -/
def limited (limit : Option Nat) (silent : Bool) (flushFailure : Option Failure) : Device where
  onWrite events bytes :=
    match limit with
    | none => ⟨bytes.length, none⟩
    | some limit =>
      if taken events + bytes.length ≤ limit then ⟨bytes.length, none⟩
      else ⟨limit - taken events, if silent then none else some full⟩
  onFlush _ := flushFailure

end Device

end ColonMachine
