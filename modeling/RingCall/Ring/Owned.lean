import RingCall.Ring.Basic
import RingCall.Ring.Config
import RingCall.Shared.Partition

/-!
# Rings in memory of their own

The end that makes a ring owns its memory, and the two counters by which the ends wake each other.
`OwnedRing.create` makes the memory, the counters and the empty ring, and `Config.buildRing` does so
with the sizes and the name of a configuration, once these have been found to be sound.
-/

namespace RingCall

open Shared

/-- A ring, its memory, and the descriptors of its counters. -/
structure OwnedRing (α : Type) where
  partition : Partition
  /-- The counter by which the consumer is woken. -/
  wake : Int32
  /-- The counter by which the producer is told that there is room again. -/
  room : Int32
  ring : Ring α

namespace OwnedRing

variable {α σ : Type} [Inhabited α]

/-- Makes an empty ring for records of the given extent. -/
def create (os : System σ) (record : Extent) (capacity : UInt64) (name : Option String) (s : σ) :
    Except IoError (OwnedRing α) × σ :=
  if h : capacity = 0 then (.error .emptyRing, s)
  else
    match Partition.allocate os record capacity.toNat name s with
    | (.error e, s) => (.error e, s)
    | (.ok partition, s) =>
      match os.eventfd s with
      | (.error code, s) => (.error (.os code), (os.unmap partition.mapping s).2)
      | (.ok wake, s) =>
        match os.eventfd s with
        | (.error code, s) =>
          (.error (.os code), (os.unmap partition.mapping (os.close wake s)).2)
        | (.ok room, s) => (.ok ⟨partition, wake, room, .blank capacity h⟩, s)

/-- How far before the slots each field of the control block lies. -/
def beforeBuffer : List Nat := Layout.control.offsets.map (bufferOffset - ·)

end OwnedRing

/-- Makes a ring as configured. -/
def Config.buildRing {α σ : Type} [Inhabited α] (c : Config) (os : System σ) (record : Extent)
    (s : σ) : Except Error (OwnedRing α) × σ :=
  match c.check with
  | .error e => (.error e, s)
  | .ok () =>
    match OwnedRing.create os record c.capacity c.name s with
    | (.error cause, s) => (.error (.io cause), s)
    | (.ok made, s) => (.ok made, s)

end RingCall
