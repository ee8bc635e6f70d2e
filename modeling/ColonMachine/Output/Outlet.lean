import ColonMachine.Output.Device

/-!
# Outlets

An outlet is what the machine writes to: something that takes bytes and can be flushed.  There
are four kinds.

* **memory** keeps all bytes; a flush does nothing.
* **discard** forgets all bytes; a flush does nothing.
* **direct** passes each write and each flush on to a device.
* **buffered** collects bytes and passes them on to a device in larger pieces, when the buffer is
  full or flushed.  After a failure it takes no more, and repeats the failure.

A write comes in two manners.  Written as **bytes**, a piece larger than an empty buffer goes to
the device as a whole; written as **characters**, it always passes through the buffer.  Only
buffered outlets know the difference.
-/

namespace ColonMachine

/-- How a piece of output is handed over. -/
inductive Manner where
  /-- As bytes. -/
  | bytes
  /-- As characters. -/
  | chars
  deriving Repr, DecidableEq

/-! ## Buffers -/

/-- A device behind a buffer. -/
structure Buffer where
  /-- Where the bytes go. -/
  device : Device
  /-- The bytes not yet passed on. -/
  pending : Text := []
  /-- The failure that stopped the buffer. -/
  failed : Option Failure := none

namespace Buffer

/-- How many bytes a buffer holds. -/
def capacity : Nat := 4096

/-- Passes the pending bytes on.  If the device takes only some, the others stay pending and the
buffer has failed. -/
def flush (b : Buffer) : Option Failure × Buffer :=
  match b.failed with
  | some failure => (some failure, b)
  | none =>
    if b.pending.isEmpty then (none, b)
    else
      let (written, device) := b.device.write b.pending
      let failure := written.failure <|>
        (if written.count < b.pending.length then some .shortWrite else none)
      match failure with
      | some failure =>
        (some failure, { device, pending := b.pending.drop written.count, failed := some failure })
      | none => (none, { device, pending := [], failed := none })

theorem pending_flush {b b' : Buffer} (h : b.flush = (none, b')) : b'.pending = [] := by
  unfold flush at h
  split at h
  · simp at h
  · split at h
    · next hempty =>
      simp only [Prod.mk.injEq, true_and] at h
      subst h
      simpa using hempty
    · simp only at h
      split at h
      · simp at h
      · simp only [Prod.mk.injEq, true_and] at h
        subst h
        rfl

/-- Takes a piece of output: as much as there is room for is collected, and the buffer is passed
on whenever it is full.  Handed over as bytes, a piece that does not fit into an empty buffer goes
to the device directly.

A device that takes nothing of such a piece and does not fail breaks the contract of a writer, and
a buffer that relies on the contract would offer the piece to it again without end; here that ends
the write.  A device is only ever given bytes: one that takes characters in a way of its own is not
modelled. -/
def write (manner : Manner) (piece : Text) (b : Buffer) : Written × Buffer :=
  match b.failed with
  | some failure => (⟨0, some failure⟩, b)
  | none =>
    if _ : piece.length ≤ capacity - b.pending.length then
      (⟨piece.length, none⟩, { b with pending := b.pending ++ piece })
    else if manner == .bytes && b.pending.isEmpty then
      let (written, device) := b.device.write piece
      let b' : Buffer := { b with device, failed := written.failure }
      if _ : written.count = 0 then (written, b')
      else
        let (more, b'') := write manner (piece.drop written.count) b'
        (⟨written.count + more.count, more.failure⟩, b'')
    else
      let room := capacity - b.pending.length
      match _hflush : flush { b with pending := b.pending ++ piece.take room } with
      | (some failure, b') => (⟨room, some failure⟩, b')
      | (none, b') =>
        let (more, b'') := write manner (piece.drop room) b'
        (⟨room + more.count, more.failure⟩, b'')
termination_by 2 * piece.length + b.pending.length
decreasing_by
  · simp only [List.length_drop]
    omega
  · rw [pending_flush _hflush]
    simp only [List.length_drop, List.length_nil]
    unfold capacity at *
    omega

end Buffer

/-! ## Outlets -/

/-- Something that takes output and can be flushed. -/
inductive Outlet where
  /-- Keeps what it is given, newest piece first. -/
  | memory (pieces : List Text)
  /-- Forgets what it is given. -/
  | discard
  /-- Passes everything on at once. -/
  | direct (device : Device)
  /-- Passes output on in larger pieces. -/
  | buffered (buffer : Buffer)

namespace Outlet

/-- Hands a piece of output to an outlet. -/
def write (manner : Manner) (piece : Text) : Outlet → Written × Outlet
  | memory pieces => (⟨piece.length, none⟩, memory (piece :: pieces))
  | discard => (⟨piece.length, none⟩, discard)
  | direct device =>
    let (written, device) := device.write piece
    (written, direct device)
  | buffered buffer =>
    let (written, buffer) := buffer.write manner piece
    (written, buffered buffer)

/-- Flushes an outlet. -/
def flush : Outlet → Option Failure × Outlet
  | memory pieces => (none, memory pieces)
  | discard => (none, discard)
  | direct device =>
    let (failure, device) := device.flush
    (failure, direct device)
  | buffered buffer =>
    let (failure, buffer) := buffer.flush
    (failure, buffered buffer)

/-- The bytes that have arrived at the far end of an outlet, in order. -/
def received : Outlet → Text
  | memory pieces => pieces.reverse.flatten
  | discard => []
  | direct device => device.received
  | buffered buffer => buffer.device.received

end Outlet

end ColonMachine
