/-!
# Layout kinds

How a value is laid out relative to the reference that stands for it.

* A *primitive* is its own reference.
* A *wrapper*'s reference points at storage the value already owns, so nothing is copied.
* A *complex* value's reference points at the references of its parts, which are written into the
  flat buffer.

A list nests the kind of its elements: a list of primitives is one block of storage, and a list of
anything else needs its element references written out.
-/

namespace RingCall.Wire

/-- How a value is laid out relative to its reference. -/
inductive Kind where
  | primitive
  | wrapper
  | complex
  deriving DecidableEq, Repr

namespace Kind

/-- The place of a kind in the order primitive, wrapper, complex. -/
def rank : Kind → Nat
  | primitive => 0
  | wrapper => 1
  | complex => 2

/-- The kind of a list whose elements are of this kind. -/
def nest : Kind → Kind
  | primitive => wrapper
  | wrapper | complex => complex

/-- The greater of two kinds. -/
def max : Kind → Kind → Kind
  | complex, _ | _, complex => complex
  | wrapper, _ | _, wrapper => wrapper
  | primitive, primitive => primitive

theorem rank_max (a b : Kind) : (a.max b).rank = Nat.max a.rank b.rank := by
  cases a <;> cases b <;> rfl

end Kind

end RingCall.Wire
