/-!
# Layouts

Where the fields of a record lie in memory: each at the next offset that its alignment allows, in
the order given, and the whole padded to its strictest alignment. From this follow the layouts that
both ends of a ring have to agree on: that of a ring's control block, that of the records which
cross it, and that of the descriptor by which one end tells the other where all this is.

A ring's memory is its control block and then, at `bufferOffset`, its slots (`slotOffset`).
-/

namespace RingCall.Shared

/-- The least multiple of `align` that is not below `n`. -/
def roundUp (n align : Nat) : Nat := (n + align - 1) / align * align

/-- What memory a value takes: its bytes, and what its address is a multiple of. -/
structure Extent where
  size : Nat
  align : Nat
  deriving DecidableEq, Repr

namespace Extent

/-- A 32-bit word. -/
def half : Extent := ⟨4, 4⟩

/-- A 64-bit word. -/
def word : Extent := ⟨8, 8⟩

/-- The bytes that a processor's caches move as one. -/
def lineSize : Nat := 128

/-- A value on cache lines of its own. -/
def isolated (e : Extent) : Extent := ⟨roundUp e.size lineSize, max e.align lineSize⟩

end Extent

/-- A record laid out in memory: the offset of each field, and its extent. -/
structure Layout where
  offsets : List Nat
  extent : Extent
  deriving DecidableEq, Repr

namespace Layout

/-- Lays fields out in the order given. -/
def ofFields (fields : List Extent) : Layout :=
  let placed := fields.foldl (fun (offsets, stop) f ↦
    let offset := roundUp stop f.align
    (offset :: offsets, offset + f.size)) (([] : List Nat), 0)
  let align := fields.foldl (fun a f ↦ max a f.align) 1
  ⟨placed.1.reverse, ⟨roundUp placed.2 align, align⟩⟩

/-- A ring's control block: the head, the tail, the working flag and the stuck flag. The two
counters are written by different ends and lie on cache lines of their own. -/
def control : Layout :=
  ofFields [Extent.word.isolated, Extent.word.isolated, .half, .half]

/-- A record of the ring: an address, the tag, the tag of the next record, the call id and the
flags. -/
def record : Layout :=
  ofFields [.word, .word, .word, .half, .half]

/-- A ring's descriptor: the address and the length of the buffer, the addresses of the head, the
tail, the working flag and the stuck flag, and the two signal descriptors. -/
def descriptor : Layout :=
  ofFields [.word, .word, .word, .word, .word, .word, .half, .half]

end Layout

/-- The offset of the first slot in a ring's memory. -/
def bufferOffset : Nat := roundUp Layout.control.extent.size Extent.lineSize

/-- The bytes of a ring's control block and slots. -/
def regionSize (capacity recordSize : Nat) : Nat := bufferOffset + capacity * recordSize

/-- The offset of the slot that a counter stands for. -/
def slotOffset (capacity recordSize : Nat) (counter : UInt64) : Nat :=
  bufferOffset + counter.toNat % capacity * recordSize

example : Layout.record = ⟨[0, 8, 16, 24, 28], ⟨32, 8⟩⟩ := rfl
example : Layout.descriptor = ⟨[0, 8, 16, 24, 32, 40, 48, 52], ⟨56, 8⟩⟩ := rfl
example : Layout.control = ⟨[0, 128, 256, 260], ⟨384, 128⟩⟩ := rfl

end RingCall.Shared
