import RingCall.Wire.Encode

/-!
# Decoding

A value is read back from the address of its reference. Decoding follows addresses wherever they
lead and never looks at a layout kind: it reads element references one behind the other, whether
they are the elements themselves or were written out. References may sit at any address, aligned or
not.

Reading fails where an address is not mapped, and on a boolean that is neither 0 nor 1.
-/

namespace RingCall.Wire

/-- Why a value cannot be read. -/
inductive ReadFault where
  /-- An address is not mapped. -/
  | outOfRange
  /-- A boolean's byte is neither 0 nor 1. -/
  | notABool
  deriving DecidableEq, Repr

namespace Memory

/-- The bytes from `address` on. -/
def read (m : Memory) (address n : Nat) : Except ReadFault (List UInt8) :=
  match m.read? address n with
  | some bytes => .ok bytes
  | none => .error .outOfRange

/-- A word at an address. -/
def readWord (m : Memory) (address : Nat) : Except ReadFault Nat := do
  return ofBytes (← m.read address 8)

/-- A reference by address and count. -/
def readView (m : Memory) (address : Nat) : Except ReadFault (Nat × Nat) := do
  let target ← m.readWord address
  let count ← m.readWord (address + 8)
  return (target, count)

/-- The text that a reference at `address` stands for. An empty text is never followed. -/
def readText (m : Memory) (address : Nat) : Except ReadFault String := do
  let (target, count) ← m.readView address
  if count = 0 then return ""
  return Text.ofUtf8 (← m.read target count)

/-- A scalar at an address. -/
def readPrim (m : Memory) (p : Prim) (address : Nat) : Except ReadFault p.Value := do
  match p.ofBits? (ofBytes (← m.read address p.width)) with
  | some v => return v
  | none => throw .notABool

end Memory

/-- Reads `count` elements whose references lie one behind the other. -/
def readEach {α : Type} (size : Nat) (elem : Nat → Except ReadFault α) (address count : Nat) :
    Except ReadFault (List α) :=
  (List.range count).mapM fun i ↦ elem (address + i * size)

/-- Reads the list that a reference at `address` stands for. -/
def readList {α : Type} (m : Memory) (size : Nat) (elem : Nat → Except ReadFault α)
    (address : Nat) : Except ReadFault (List α) := do
  let (target, count) ← m.readView address
  readEach size elem target count

/-- Reads a value from the address of its reference. -/
def Ty.readAt : (t : Ty) → Memory → Nat → Except ReadFault t.Value
  | .prim p, m, address => m.readPrim p address
  | .string, m, address => m.readText address
  | .list t, m, address => readList m t.refSize (t.readAt m) address
  | .greeting, m, address => do
    let id ← m.read address 4
    let name ← m.readText (address + 8)
    let tags ← readList m viewSize m.readText (address + 8 + viewSize)
    return (⟨UInt32.ofNat (ofBytes id), name, tags⟩ : Greeting)

/-! ### The shape of what was written -/

/-- A reference and, where its parts were written out, theirs. -/
inductive Outline where
  /-- A scalar, held by the reference itself. -/
  | inline (p : Prim) (v : p.Value)
  /-- Storage of the value's own. -/
  | own (address count : Nat)
  /-- Element references that were written out. -/
  | elements (address count : Nat) (elems : List Outline)
  /-- A greeting's id and the references of its parts. -/
  | greeting (id : UInt32) (name tags : Outline)

/-- Follows a reference as far as it was written by the encoder. -/
def Ty.outline : (t : Ty) → Memory → Nat → Except ReadFault Outline
  | .prim p, m, address => return .inline p (← m.readPrim p address)
  | .string, m, address => return .own (← m.readView address).1 (← m.readView address).2
  | .list t, m, address => do
    let (target, count) ← m.readView address
    if (Ty.list t).kind = .complex then
      return .elements target count (← readEach t.refSize (t.outline m) target count)
    return .own target count
  | .greeting, m, address => do
    let id ← m.read address 4
    let (name, nameCount) ← m.readView (address + 8)
    let (tags, tagCount) ← m.readView (address + 8 + viewSize)
    let elems ← readEach viewSize (fun a ↦ do
      let (target, count) ← m.readView a
      return Outline.own target count) tags tagCount
    return .greeting (UInt32.ofNat (ofBytes id)) (.own name nameCount)
      (.elements tags tagCount elems)

end RingCall.Wire
