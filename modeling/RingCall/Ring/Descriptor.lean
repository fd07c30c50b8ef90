import RingCall.Failure.Error
import RingCall.Ring.Basic
import RingCall.Text.Hex

/-!
# Ring descriptors

One end of a ring tells the other where the ring is by a descriptor of plain addresses and numbers.
It comes from outside, so it is checked before a view of the ring is made from it: a ring has slots,
and no address is missing.
-/

namespace RingCall

/-- Where a ring is. -/
structure Descriptor where
  buffer : UInt64
  /-- The number of slots. -/
  capacity : UInt64
  head : UInt64
  tail : UInt64
  working : UInt64
  stuck : UInt64
  workingHandle : Int32
  unstuckHandle : Int32
  deriving DecidableEq, Repr

/-- One end's view of a ring. -/
structure View where
  descriptor : Descriptor
  /-- Whether this end made the ring. -/
  isOwner : Bool
  deriving DecidableEq, Repr

namespace View

/-- What is shown of a ring through a view of it. -/
def listing (v : View) (c : Control) : Text.Listing :=
  c.listing ("0x" ++ Text.hex 1 v.descriptor.buffer.toNat) v.descriptor.capacity v.isOwner

end View

namespace Descriptor

/-- The addresses in a descriptor. -/
def addresses (d : Descriptor) : List UInt64 := [d.buffer, d.head, d.tail, d.working, d.stuck]

/-- The view of a ring that a peer made. -/
def attach (d : Descriptor) : Except IoError View :=
  if d.capacity = 0 then .error .emptyRing
  else if d.addresses.contains 0 then .error .nullAddress
  else .ok ⟨d, false⟩

end Descriptor

end RingCall
