import RingCall.Failure.Error
import RingCall.Slab.Basic

/-!
# Sharded slabs

Several slabs, each behind its own lock, share one space of handles. The low bits of a handle are
the shard and the bits above them the number within the shard, so a handle leads back to its shard
without a search. Numbers within a shard start at 1, hence no handle is 0.

Values go to the shards in turn. Choosing the shard (`advance`) and storing the value in it
(`pushAt`) are separate steps, since threads may interleave between the two.
-/

namespace RingCall

/-- Slabs that share one space of handles. -/
structure ShardedSlab (α : Type) where
  /-- The bits of a handle that say which shard it belongs to. -/
  bits : Nat
  shards : Vector (Slab α) (1 <<< bits)
  /-- Counts the values stored so far, modulo the size of a word. -/
  cursor : UInt64

namespace ShardedSlab

variable {α : Type}

/-- Whether a number of shards is a power of two. -/
def isShardCount (n : Nat) : Bool :=
  n == 1 <<< n.log2

/-- A slab of `1 <<< bits` empty shards. -/
def ofBits (bits : Nat) : ShardedSlab α :=
  ⟨bits, Vector.replicate _ .empty, 0⟩

/-- A slab with the given number of shards, which must be a power of two. -/
def new (shards : Nat) : Except Error (ShardedSlab α) :=
  if isShardCount shards then .ok (ofBits shards.log2) else .error (.invalidShardCount shards)

/-- The number of shards. -/
def shardCount (s : ShardedSlab α) : Nat := 1 <<< s.bits

theorem one_shiftLeft_pos (bits : Nat) : 0 < 1 <<< bits := by
  rw [Nat.one_shiftLeft]
  exact Nat.two_pow_pos bits

/-- The shard that a handle belongs to. -/
def shardOf (s : ShardedSlab α) (handle : UInt64) : Fin (1 <<< s.bits) :=
  ⟨handle.toNat % (1 <<< s.bits), Nat.mod_lt _ (one_shiftLeft_pos _)⟩

/-- The number of a handle within its shard. -/
def innerOf (s : ShardedSlab α) (handle : UInt64) : Nat :=
  handle.toNat >>> s.bits

/-- The handle of a number within a shard. -/
def handleOf (s : ShardedSlab α) (shard : Fin (1 <<< s.bits)) (inner : Nat) : UInt64 :=
  UInt64.ofNat ((inner <<< s.bits) + shard)

/-- Takes the next shard in turn. -/
def advance (s : ShardedSlab α) : Fin (1 <<< s.bits) × ShardedSlab α :=
  (s.shardOf s.cursor, { s with cursor := s.cursor + 1 })

/-- Stores a value in a shard and answers its handle. -/
def pushAt (s : ShardedSlab α) (shard : Fin (1 <<< s.bits)) (v : α) : UInt64 × ShardedSlab α :=
  let (inner, slab) := s.shards[shard].push v
  (s.handleOf shard inner, { s with shards := s.shards.set shard slab })

/-- Stores a value in the next shard in turn and answers its handle. -/
def push (s : ShardedSlab α) (v : α) : UInt64 × ShardedSlab α :=
  pushAt { s with cursor := s.cursor + 1 } (s.shardOf s.cursor) v

/-- Takes out the value under a handle. A handle that is not in use answers nothing and changes
nothing. -/
def pop (s : ShardedSlab α) (handle : UInt64) : Option α × ShardedSlab α :=
  let shard := s.shardOf handle
  let (v, slab) := s.shards[shard].pop (s.innerOf handle)
  (v, { s with shards := s.shards.set shard slab })

/-- The value under a handle. -/
def get? (s : ShardedSlab α) (handle : UInt64) : Option α :=
  s.shards[s.shardOf handle].get? (s.innerOf handle)

/-- The number of values in each shard. -/
def shardLens (s : ShardedSlab α) : List Nat :=
  s.shards.toList.map Slab.len

/-- The number of stored values. -/
def len (s : ShardedSlab α) : Nat := s.shardLens.foldr (· + ·) 0

/-- Whether nothing is stored. -/
def isEmpty (s : ShardedSlab α) : Bool := s.shards.toList.all Slab.isEmpty

end ShardedSlab

end RingCall
