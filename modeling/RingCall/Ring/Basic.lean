import RingCall.Text.Listing

/-!
# The ring

A ring holds up to `capacity` records between a tail, where records are stored, and a head, where
they are taken. Head and tail are counters that only ever grow, modulo the size of a word; the slot
of a record is its counter modulo the capacity. Beside the counters the ring's control block has two
flags. The consumer's `working` is set while it drains the ring or is about to be woken, and `stuck`
is set while the producers hold back records that did not fit.

Anyone may write anything into a control block, so counters may be any distance apart and a flag is
set only if it is exactly 1.

`Ring.contents` lists the records from the head to the tail.
-/

namespace RingCall

/-- The control block of a ring. -/
structure Control where
  head : UInt64 := 0
  tail : UInt64 := 0
  working : UInt32 := 0
  stuck : UInt32 := 0
  deriving DecidableEq, Repr

namespace Control

/-- The number of records between head and tail. -/
def len (c : Control) : UInt64 := c.tail - c.head

def isEmpty (c : Control) : Bool := c.tail == c.head

def isFull (c : Control) (capacity : UInt64) : Bool := c.len == capacity

def isWorking (c : Control) : Bool := c.working == 1

def isStuck (c : Control) : Bool := c.stuck == 1

/-- What is shown of a ring: the address of its slots, its counters and flags, and whether this end
made it. -/
def listing (c : Control) (buffer : String) (capacity : UInt64) (isOwner : Bool) :
    Text.Listing where
  name := "Queue"
  fields := [("buffer", .plain buffer), ("capacity", .ofNat capacity.toNat),
    ("len", .ofNat c.len.toNat), ("working", .ofBool c.isWorking), ("stuck", .ofBool c.isStuck),
    ("owner", .ofBool isOwner)]
  isComplete := false

end Control

/-- A ring of records. -/
structure Ring (α : Type) where
  capacity : UInt64
  control : Control
  /-- The records by slot. A slot that was never written holds what the memory held. -/
  slots : Nat → α
  capacity_ne_zero : capacity ≠ 0

namespace Ring

variable {α : Type}

/-- A ring without records whose memory is blank. -/
def blank [Inhabited α] (capacity : UInt64) (h : capacity ≠ 0) : Ring α :=
  ⟨capacity, {}, fun _ ↦ default, h⟩

/-- The slot of a counter. -/
def slot (r : Ring α) (counter : UInt64) : Nat := counter.toNat % r.capacity.toNat

/-- The number of records held. -/
def len (r : Ring α) : UInt64 := r.control.len

def isEmpty (r : Ring α) : Bool := r.control.isEmpty

def isFull (r : Ring α) : Bool := r.control.isFull r.capacity

/-- The records held, from the head to the tail. -/
def contents (r : Ring α) : List α :=
  (List.range r.len.toNat).map fun i ↦ r.slots (r.slot (r.control.head + UInt64.ofNat i))

/-- Stores a record at the tail, unless the ring is full. -/
def push? (r : Ring α) (a : α) : Option (Ring α) :=
  if r.isFull then none
  else
    let at' := r.slot r.control.tail
    some { r with
      control := { r.control with tail := r.control.tail + 1 }
      slots := fun i ↦ if i = at' then a else r.slots i }

/-- Takes the record at the head, unless the ring is empty. -/
def pop? (r : Ring α) : Option (α × Ring α) :=
  if r.isEmpty then none
  else
    some (r.slots (r.slot r.control.head),
      { r with control := { r.control with head := r.control.head + 1 } })

/-- Sets or clears the working flag. -/
def setWorking (r : Ring α) (on : Bool) : Ring α :=
  { r with control := { r.control with working := if on then 1 else 0 } }

/-- Sets or clears the stuck flag. -/
def setStuck (r : Ring α) (on : Bool) : Ring α :=
  { r with control := { r.control with stuck := if on then 1 else 0 } }

def isWorking (r : Ring α) : Bool := r.control.isWorking

def isStuck (r : Ring α) : Bool := r.control.isStuck

end Ring

end RingCall
