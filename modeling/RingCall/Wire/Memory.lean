/-!
# Memory

Addresses are plain numbers, since a reference may sit anywhere and move between threads. A memory
says which byte an address holds, if it is mapped at all. The memory that a program has is made of
regions: blocks of bytes, each starting at its base.

`Heap` hands out regions. A new region starts where the last live one ends, so live regions never
overlap, and once a region is released the heap is what it was before the region was taken.
-/

namespace RingCall.Wire

/-- The byte at each mapped address. -/
abbrev Memory := Nat → Option UInt8

/-- The `n` bytes from `address` on, if all of them are mapped. -/
def Memory.read? (m : Memory) (address : Nat) : Nat → Option (List UInt8)
  | 0 => some []
  | n + 1 => do
    let b ← m address
    let rest ← Memory.read? m (address + 1) n
    return b :: rest

/-- A block of bytes at an address. -/
structure Region where
  base : Nat
  bytes : Array UInt8
  deriving DecidableEq

namespace Region

/-- The byte that a region holds at an address. -/
def byte? (r : Region) (address : Nat) : Option UInt8 :=
  if r.base ≤ address then r.bytes[address - r.base]? else none

/-- The first address behind a region. -/
def stop (r : Region) : Nat :=
  r.base + r.bytes.size

end Region

/-- The memory that a list of regions makes up. Where two overlap the first one counts. -/
def Memory.ofRegions (rs : List Region) : Memory := fun a ↦
  rs.findSome? fun r ↦ r.byte? a

/-- The live regions, the newest first. -/
structure Heap where
  regions : List Region
  deriving DecidableEq

namespace Heap

/-- The least address of a region. Address 0 is never mapped. -/
def floor : Nat := 4096

/-- A heap with no regions. -/
def empty : Heap := ⟨[]⟩

/-- The memory of the live regions. -/
def memory (h : Heap) : Memory :=
  Memory.ofRegions h.regions

/-- The first address behind every live region. -/
def top (h : Heap) : Nat :=
  h.regions.foldl (fun a r ↦ max a r.stop) floor

/-- Adds a region that lies behind every live one. -/
def insert (h : Heap) (r : Region) : Heap :=
  ⟨r :: h.regions⟩

/-- Takes a new region for the bytes and answers its address. -/
def alloc (h : Heap) (bytes : Array UInt8) : Nat × Heap :=
  (h.top, h.insert ⟨h.top, bytes⟩)

/-- Releases one region with the given base and bytes. -/
def release (h : Heap) (r : Region) : Heap :=
  ⟨h.regions.erase r⟩

end Heap

end RingCall.Wire
