import RingCall.Shared.Mapping
import RingCall.Text.Listing

/-!
# Memory of a ring

`Partition.allocate` makes the memory of one ring: a control block of zeros and then the slots. It
refuses, before any memory is made, a ring without slots, records that must be aligned more strictly
than the slots are, and a ring whose size in bytes is not a machine word.
-/

namespace RingCall.Shared

/-- The memory of one ring. -/
structure Partition where
  mapping : Mapping
  capacity : Nat
  record : Extent
  deriving DecidableEq, Repr

namespace Partition

variable {σ : Type}

/-- Whether a ring of `capacity` such records can be asked for. Answers the bytes it takes. -/
def plan (record : Extent) (capacity : Nat) : Except IoError Nat :=
  if capacity = 0 then .error .emptyRing
  else if Extent.lineSize < record.align then .error (.alignment record.align)
  else
    let size := regionSize capacity record.size
    if size < UInt64.size then .ok size else .error (.ringOverflow capacity record.size)

/-- Makes the memory of a ring of `capacity` records. -/
def allocate (os : System σ) (record : Extent) (capacity : Nat) (name : Option String) (s : σ) :
    Except IoError Partition × σ :=
  match plan record capacity with
  | .error e => (.error e, s)
  | .ok size =>
    match os.create (.ofNat size) name s with
    | (.error cause, s) => (.error (.ringMemory capacity record.size cause), s)
    | (.ok mapping, s) =>
      if mapping.address.toNat % Extent.lineSize ≠ 0
        then (.error .misaligned, (os.unmap mapping s).2)
      else (.ok ⟨mapping, capacity, record⟩, s)

/-- The bytes that the other end has to map. -/
def regionSize (p : Partition) : Nat := Shared.regionSize p.capacity p.record.size

/-- What is shown of a ring's memory, given the texts of its addresses and of its descriptor. -/
def listing (p : Partition) (header buffer handle : String) : Text.Listing where
  name := "RingPartition"
  fields := [("header", .plain header), ("buffer", .plain buffer), ("capacity", .ofNat p.capacity),
    ("record_size", .ofNat p.record.size), ("handle", .tagged "Fd" handle)]

end Partition

end RingCall.Shared
