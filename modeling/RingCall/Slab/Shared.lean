import RingCall.Slab.Sharded

/-!
# Sharded slabs in use by several threads

A thread that stores a value chooses a shard first and then waits for the lock of that shard, so
other threads may store values and take them out in between. A `SharedSlab` has the values that are
on their way into a shard beside the slab itself, and its threads take turns in any order.

`SharedSlab.step` says what a turn does and when it can be taken. A thread that chooses its shard
and stores its value at once does what `ShardedSlab.push` does (`step_choose_store`).
-/

namespace RingCall

/-- A sharded slab and the values on their way into it. -/
structure SharedSlab (α : Type) where
  slab : ShardedSlab α
  /-- The values whose shard has been chosen, each with the count that its shard is chosen by. -/
  storing : List (UInt64 × α)

/-- What a thread does. The values on their way are known by their place. -/
inductive SlabTurn (α : Type) where
  /-- A thread chooses a shard for a value. -/
  | choose (v : α)
  /-- A thread stores its value in the shard that it chose. -/
  | store (i : Nat)
  /-- A thread takes out the value under a handle. -/
  | pop (handle : UInt64)
  deriving DecidableEq, Repr

/-- What a thread is answered. -/
inductive SlabOutcome (α : Type) where
  | chosen
  | stored (handle : UInt64)
  | popped (v : Option α)
  deriving DecidableEq, Repr

namespace SharedSlab

variable {α : Type}

/-- A slab that nobody is storing a value in. -/
def idle (slab : ShardedSlab α) : SharedSlab α := ⟨slab, []⟩

/-- What a turn answers and does, if it can be taken. -/
def step (s : SharedSlab α) : SlabTurn α → Option (SlabOutcome α × SharedSlab α)
  | .choose v => some (.chosen, ⟨s.slab.advance.2, s.storing ++ [(s.slab.cursor, v)]⟩)
  | .store i =>
    s.storing[i]?.map fun (count, v) ↦
      let (handle, slab) := s.slab.pushAt (s.slab.shardOf count) v
      (.stored handle, ⟨slab, s.storing.eraseIdx i⟩)
  | .pop handle =>
    let (v, slab) := s.slab.pop handle
    some (.popped v, { s with slab })

/-- Takes turns one after another, if all of them can be taken. -/
def run? (s : SharedSlab α) : List (SlabTurn α) → Option (List (SlabOutcome α) × SharedSlab α)
  | [] => some ([], s)
  | turn :: turns => do
    let (outcome, s) ← s.step turn
    let (outcomes, s) ← s.run? turns
    return (outcome :: outcomes, s)

/-- To choose a shard and to store the value there is to store it in the next shard in turn. -/
theorem step_choose_store (slab : ShardedSlab α) (v : α) :
    ((idle slab).step (.choose v)).bind (fun (_, s) ↦ s.step (.store 0)) =
      some (.stored (slab.push v).1, idle (slab.push v).2) := rfl

end SharedSlab

end RingCall
