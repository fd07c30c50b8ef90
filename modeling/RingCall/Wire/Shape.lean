import RingCall.Text.Utf8
import RingCall.Wire.Kind
import RingCall.Wire.Primitive

/-!
# The family of types that cross the ring

Scalars, text, lists of any of these, and greetings: a record of an id, a name and tags. A value of
a type is a Lean value (`Ty.Value`), so a value always fits its type.

In memory a value is stood for by its *reference*. The reference of a scalar is the scalar. Text and
lists are referenced by an address and an element count. A greeting is referenced by its id, four
bytes of padding, and the references of its name and of its tags.
-/

namespace RingCall.Wire

/-- A type that can cross the ring. -/
inductive Ty where
  | prim (p : Prim)
  | string
  | list (elem : Ty)
  | greeting
  deriving DecidableEq, Repr

/-- A greeting: a record with an inline part, text and a list of text. -/
structure Greeting where
  id : UInt32
  name : String
  tags : List String
  deriving DecidableEq

namespace Ty

/-- The values of a type. -/
def Value : Ty → Type
  | prim p => p.Value
  | string => String
  | list t => List t.Value
  | greeting => Greeting

/-- The type of machine words. -/
abbrev word : Ty := prim .u64

/-- The layout kind of a type. -/
def kind : Ty → Kind
  | prim _ => .primitive
  | string => .wrapper
  | list t => t.kind.nest
  | greeting => .complex

/-- The bytes of an address with a count. -/
def viewSize : Nat := 16

/-- The bytes of the reference that stands for a value. -/
def refSize : Ty → Nat
  | prim p => p.width
  | string | list _ => viewSize
  | greeting => 4 + 4 + viewSize + viewSize

/-- Only a scalar is primitive. -/
theorem kind_eq_primitive_iff {t : Ty} : t.kind = .primitive ↔ ∃ p, t = prim p := by
  cases t with
  | prim p => simp [kind]
  | string => simp [kind]
  | list t => cases h : t.kind <;> simp [kind, h, Kind.nest]
  | greeting => simp [kind]

end Ty

/-- The reference to `count` elements at `address`. -/
def viewBytes (address count : Nat) : List UInt8 :=
  toBytes 8 address ++ toBytes 8 count

@[simp]
theorem length_viewBytes (address count : Nat) : (viewBytes address count).length =
    Ty.viewSize := by
  simp [viewBytes, Ty.viewSize]

end RingCall.Wire
