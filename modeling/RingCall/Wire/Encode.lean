import RingCall.Wire.Pen
import RingCall.Wire.Shape

/-!
# Flat encoding

Encoding takes two passes. Measuring adds up the bytes that a value needs outside its own storage:
the references of its parts, at every level (`Ty.measure`). The sum is a machine word. Writing then
fills a buffer of exactly that size (`Ty.flatSize`) and yields the value's own reference, which is
stored behind it. Whether a level is inlined, referenced in place or written out is decided by its
layout kind, in both passes alike.

Text and lists of scalars are referenced where they already are. Such a block of own storage belongs
to the part of the value that is reached by a path of child numbers, and `Home` gives its address.
`Ty.storage` lists the blocks, and `Ty.place` lays them out one behind the other.
-/

namespace RingCall.Wire

/-- The address of the block of storage that belongs to the part at each path. -/
abbrev Home := List Nat → Nat

/-- The addresses of the parts of child `i`. -/
def Home.child (h : Home) (i : Nat) : Home := fun path ↦ h (i :: path)

/-- What writing a value yields: its reference, the pen behind what was written, and the writes in
the order in which they were made. -/
structure Written where
  ref : List UInt8
  pen : Pen
  puts : List Put

/-- Writes the elements of a list with the pen, and each element's reference into its slot. -/
def writeEach {α : Type} (write : α → Home → Pen → Written) (home : Home) :
    Nat → List α → Pen → Pen → Pen × List Put
  | _, [], _, pen => (pen, [])
  | i, x :: xs, slots, pen =>
    let elem := write x (home.child i) pen
    let (slot, slots) := slots.put elem.ref
    let (pen, puts) := writeEach write home (i + 1) xs slots elem.pen
    (pen, elem.puts ++ slot :: puts)

/-- Writes the references of a list's elements into the buffer. -/
def writeOut {α : Type} (size : Nat) (write : α → Home → Pen → Written) (xs : List α) (home : Home)
    (pen : Pen) : Written :=
  let (slots, rest) := pen.reserve (xs.length * size)
  let (rest, puts) := writeEach write home 0 xs slots rest
  ⟨viewBytes pen.pos xs.length, rest, puts⟩

/-- References text where it is. -/
def writeText (s : String) (home : Home) (pen : Pen) : Written :=
  ⟨viewBytes (home []) (Text.utf8 s).length, pen, []⟩

/-- Adds to a word. A sum that is no word wraps around or, if sums are checked, is refused. -/
def addSize (checked : Bool) (acc : UInt64) (n : Nat) : Option UInt64 :=
  if checked ∧ UInt64.size ≤ acc.toNat + n then none else some (acc + .ofNat n)

namespace Ty

/-- Adds the bytes that a value needs in the buffer to `acc`. A list element also needs its own
reference (`withRef`). Sums are `checked` or wrap around. -/
def measure (checked : Bool) : (t : Ty) → t.Value → Bool → UInt64 → Option UInt64
  | prim p, _, withRef, acc => if withRef then addSize checked acc p.width else some acc
  | string, _, withRef, acc => if withRef then addSize checked acc viewSize else some acc
  | list t, (xs : List t.Value), withRef, acc => do
    let acc ← (if withRef then addSize checked acc viewSize else some acc)
    if (list t).kind = .complex then xs.foldlM (fun acc x ↦ t.measure checked x true acc) acc
    else some acc
  | greeting, (g : Greeting), withRef, acc => do
    let acc ← (if withRef then addSize checked acc greeting.refSize else some acc)
    g.tags.foldlM (fun acc _ ↦ addSize checked acc viewSize) acc

/-- The bytes that a value takes in the buffer besides its own reference. -/
def flatSize : (t : Ty) → t.Value → Nat
  | prim _, _ | string, _ => 0
  | list t, (xs : List t.Value) =>
    if (list t).kind = .complex then xs.length * t.refSize + (xs.map t.flatSize).sum else 0
  | greeting, (g : Greeting) => g.tags.length * viewSize

/-- Writes what a value needs at the pen and yields its reference. -/
def write : (t : Ty) → t.Value → Home → Pen → Written
  | prim p, v, _, pen => ⟨p.toBytes v, pen, []⟩
  | string, (s : String), home, pen => writeText s home pen
  | list t, (xs : List t.Value), home, pen =>
    if (list t).kind = .complex then writeOut t.refSize t.write xs home pen
    else ⟨viewBytes (home []) xs.length, pen, []⟩
  | greeting, (g : Greeting), home, pen =>
    let name := writeText g.name (home.child 0) pen
    let tags := writeOut viewSize writeText g.tags (home.child 1) name.pen
    ⟨RingCall.toBytes 4 g.id.toNat ++ RingCall.toBytes 4 0 ++ name.ref ++ tags.ref, tags.pen,
      name.puts ++ tags.puts⟩

/-- The blocks of a value's own storage, each with the path of the part it belongs to. -/
def storage : (t : Ty) → t.Value → List (List Nat × List UInt8)
  | prim _, _ => []
  | string, (s : String) => [([], Text.utf8 s)]
  | list (prim p), (xs : List p.Value) => [([], xs.flatMap p.toBytes)]
  | list t, (xs : List t.Value) =>
    (xs.zipIdx.map fun (x, i) ↦ (t.storage x).map fun (path, block) ↦ (i :: path, block)).flatten
  | greeting, (g : Greeting) =>
    ([0], Text.utf8 g.name) :: g.tags.zipIdx.map fun (s, i) ↦ ([1, i], Text.utf8 s)

/-- The own storage of a value laid out from `start` on: each block's path and region. -/
def place (t : Ty) (v : t.Value) (start : Nat) : List (List Nat × Region) :=
  layOut start (t.storage v)
where
  /-- Puts each block directly behind the one before it. -/
  layOut : Nat → List (List Nat × List UInt8) → List (List Nat × Region)
    | _, [] => []
    | a, (path, block) :: rest => (path, ⟨a, block.toArray⟩) :: layOut (a + block.length) rest

end Ty

/-- The addresses that a layout assigns. -/
def Home.ofLayout (layout : List (List Nat × Region)) : Home := fun path ↦
  match layout.lookup path with
  | some r => r.base
  | none => 0

/-- A value's flat encoding: the references of its parts, then its own reference. -/
structure Flat where
  base : Nat
  bytes : Array UInt8
  /-- Where the value's own reference starts in the buffer. -/
  refOffset : Nat

namespace Flat

/-- The address of the value's reference, which is what a record carries. -/
def refAddress (f : Flat) : Nat := f.base + f.refOffset

/-- The buffer as a region of memory. -/
def region (f : Flat) : Region := ⟨f.base, f.bytes⟩

end Flat

/-- Encodes a value into a buffer at `base`, of the size that is measured. -/
def Ty.flatten (t : Ty) (v : t.Value) (home : Home) (base : Nat) : Flat :=
  let body := t.flatSize v
  let written := t.write v home ⟨base⟩
  let buffer := written.puts.foldl (fun buffer put ↦
    overwrite buffer (put.address - base) put.bytes) (Array.replicate body 0)
  ⟨base, buffer ++ written.ref.toArray, body⟩

/-- A value in memory: its own storage and its flat encoding. -/
structure Placed where
  blocks : List (List Nat × Region)
  flat : Flat

namespace Placed

/-- The regions that a value in memory takes. -/
def regions (p : Placed) : List Region :=
  p.flat.region :: p.blocks.map (·.2)

/-- The address of the value's reference. -/
def refAddress (p : Placed) : Nat := p.flat.refAddress

end Placed

/-- Lays a value's own storage out from `start` on and encodes it directly behind. -/
def Ty.store (t : Ty) (v : t.Value) (start : Nat) : Placed :=
  let blocks := t.place v start
  let base := blocks.foldl (fun a b ↦ max a b.2.stop) start
  ⟨blocks, t.flatten v (Home.ofLayout blocks) base⟩

/-- Stores a value in newly taken regions. -/
def Heap.store (h : Heap) (t : Ty) (v : t.Value) : Placed × Heap :=
  let placed := t.store v h.top
  (placed, ⟨placed.regions ++ h.regions⟩)

/-- Releases the regions of a stored value. -/
def Heap.discard (h : Heap) (p : Placed) : Heap :=
  p.regions.foldl Heap.release h

end RingCall.Wire
