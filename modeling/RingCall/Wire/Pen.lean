import RingCall.Wire.Memory

/-!
# Writing positions

A pen is a position in a buffer. Putting bytes writes them there and moves the pen past them.
Reserving forks a second pen off that owns the next bytes, and moves the first pen past them, so the
two never write the same byte as long as the fork stays within what was reserved for it.

A sheet is a buffer with any number of pens on it, each with the end of its span. A step that would
leave its pen's span is refused and changes nothing.
-/

namespace RingCall.Wire

/-- Bytes written at an address. -/
structure Put where
  address : Nat
  bytes : List UInt8
  deriving DecidableEq

/-- A writing position. -/
structure Pen where
  pos : Nat
  deriving DecidableEq

namespace Pen

/-- Writes bytes at the pen and moves past them. -/
def put (p : Pen) (bytes : List UInt8) : Put × Pen :=
  (⟨p.pos, bytes⟩, ⟨p.pos + bytes.length⟩)

/-- Splits off the next `n` bytes: the fork that owns them, and the pen behind them. -/
def reserve (p : Pen) (n : Nat) : Pen × Pen :=
  (p, ⟨p.pos + n⟩)

end Pen

/-- Overwrites the bytes from an offset on. What would fall outside the buffer is dropped. -/
def overwrite (buffer : Array UInt8) (offset : Nat) : List UInt8 → Array UInt8
  | [] => buffer
  | b :: bs => overwrite (buffer.setIfInBounds offset b) (offset + 1) bs

@[simp]
theorem size_overwrite (buffer : Array UInt8) (offset : Nat) (bytes : List UInt8) :
    (overwrite buffer offset bytes).size = buffer.size := by
  induction bytes generalizing buffer offset with
  | nil => rfl
  | cons b bs ih => simp [overwrite, ih]

/-- A pen and the end of the bytes it may write. -/
structure Span where
  pen : Pen
  stop : Nat
  deriving DecidableEq

/-- A buffer with pens on it, numbered in the order in which they were made. -/
structure Sheet where
  bytes : Array UInt8
  spans : List Span
  deriving DecidableEq

namespace Sheet

/-- A sheet of `size` equal bytes with one pen that owns them all. -/
def blank (size : Nat) (fill : UInt8) : Sheet :=
  ⟨Array.replicate size fill, [⟨⟨0⟩, size⟩]⟩

/-- Writes bytes with pen `w`, if its span has room for them. -/
def put? (s : Sheet) (w : Nat) (bytes : List UInt8) : Option Sheet := do
  let span ← s.spans[w]?
  let (written, pen) := span.pen.put bytes
  if pen.pos ≤ span.stop then
    some ⟨overwrite s.bytes written.address written.bytes, s.spans.set w ⟨pen, span.stop⟩⟩
  else none

/-- Forks the next `n` bytes of pen `w` off as a new pen, if its span has room for them. -/
def reserve? (s : Sheet) (w n : Nat) : Option Sheet := do
  let span ← s.spans[w]?
  let (fork, pen) := span.pen.reserve n
  if pen.pos ≤ span.stop then
    some { s with spans := s.spans.set w ⟨pen, span.stop⟩ ++ [⟨fork, pen.pos⟩] }
  else none

/-- The position of every pen. -/
def positions (s : Sheet) : List Nat :=
  s.spans.map (·.pen.pos)

end Sheet

end RingCall.Wire
