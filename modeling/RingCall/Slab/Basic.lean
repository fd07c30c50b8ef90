/-!
# Slabs

A slab hands out a number for each value it stores and finds the value again by its number. Slots
that were freed are used again, the one freed last first. The free slots form a list inside the
slots themselves: a vacant slot holds the number of the next vacant one.

Number 0 is never handed out. Slot 0 is vacant for good, so 0 can end the list of free slots, and
elsewhere it can stand for "no value".
-/

namespace RingCall

/-- One slot of a slab. -/
inductive Slot (α : Type) where
  /-- A free slot, with the number of the next free one; 0 ends the list. -/
  | vacant (next : Nat)
  | occupied (value : α)
  deriving DecidableEq, Repr

/-- A growing store of values under numbers. -/
structure Slab (α : Type) where
  slots : Array (Slot α)
  /-- The first free slot, or 0 if there is none. -/
  next : Nat
  /-- The number of stored values. -/
  len : Nat
  deriving DecidableEq, Repr

namespace Slab

variable {α : Type}

/-- A slab that stores nothing. -/
def empty : Slab α := ⟨#[.vacant 0], 0, 0⟩

/-- A slab that stores nothing, with room set aside for a number of values. -/
def withCapacity (capacity : Nat) : Slab α :=
  ⟨(Array.emptyWithCapacity (capacity + 1)).push (.vacant 0), 0, 0⟩

/-- The room that is set aside makes no difference to what is stored. -/
theorem withCapacity_eq (capacity : Nat) : (withCapacity capacity : Slab α) = empty := rfl

instance : Inhabited (Slab α) := ⟨empty⟩

/-- The value stored under a number. -/
def get? (s : Slab α) (i : Nat) : Option α :=
  match s.slots[i]? with
  | some (.occupied v) => some v
  | _ => none

/-- Stores a value in the slot freed last, or in a new one, and answers its number. -/
def push (s : Slab α) (v : α) : Nat × Slab α :=
  if s.next = 0 then
    (s.slots.size, ⟨s.slots.push (.occupied v), 0, s.len + 1⟩)
  else
    let next := match s.slots[s.next]? with
      | some (.vacant n) => n
      | _ => s.next
    (s.next, ⟨s.slots.setIfInBounds s.next (.occupied v), next, s.len + 1⟩)

/-- Takes the value stored under a number out, and frees its slot. A number that is not in use
answers nothing and changes nothing. -/
def pop (s : Slab α) (i : Nat) : Option α × Slab α :=
  if i = 0 then (none, s)
  else
    match s.slots[i]? with
    | some (.occupied v) => (some v, ⟨s.slots.setIfInBounds i (.vacant s.next), i, s.len - 1⟩)
    | _ => (none, s)

/-- Whether nothing is stored. -/
def isEmpty (s : Slab α) : Bool := s.len == 0

end Slab

end RingCall
