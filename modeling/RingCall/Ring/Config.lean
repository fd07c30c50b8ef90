import RingCall.Ring.Idle
import RingCall.Slab.Sharded
import RingCall.Text.Numeral

/-!
# Configuration

The sizes of a ring and of the dispatch behind it. A configuration starts from the defaults, which
the environment may override, and is then adjusted. It may hold sizes that nothing can be built
with; `Config.check` says so.
-/

namespace RingCall

/-- The configuration of a ring and of the dispatch behind it. -/
structure Config where
  /-- The number of records that a ring holds. -/
  capacity : UInt64 := 1024
  /-- The number of workers; as many as the machine has processors if nothing was said. -/
  workers : Option UInt64 := none
  /-- The number of jobs that may queue before they spill over. -/
  depth : UInt64 := 4096
  /-- The number of shards of each slab. -/
  shards : UInt64 := 8
  idle : IdlePolicy := .yield
  /-- The name of the ring's memory. -/
  name : Option String := none
  deriving DecidableEq, Repr

instance : Inhabited Config := ⟨{}⟩

namespace Config

/-- The settings that the environment may override. -/
inductive Setting where
  | capacity
  | workers
  | shards
  deriving DecidableEq, Repr

/-- The number that a setting is overridden with. What does not spell a number, and zero, are as if
the setting was absent. -/
def override (text : Option String) : Option UInt64 :=
  (text.bind Text.word?).filter (· ≠ 0)

/-- The defaults as the environment overrides them. -/
def ofEnvironment (env : Setting → Option String) : Config :=
  let base : Config := {}
  { base with
    capacity := (override (env .capacity)).getD base.capacity
    workers := (override (env .workers)).or base.workers
    shards := (override (env .shards)).getD base.shards }

def withCapacity (c : Config) (n : UInt64) : Config := { c with capacity := n }

/-- Sets the number of workers, which is at least 1. -/
def withWorkers (c : Config) (n : UInt64) : Config := { c with workers := some (max n 1) }

/-- Sets the number of jobs that may queue, which is at least 1. -/
def withDepth (c : Config) (n : UInt64) : Config := { c with depth := max n 1 }

def withShards (c : Config) (n : UInt64) : Config := { c with shards := n }

def withIdle (c : Config) (p : IdlePolicy) : Config := { c with idle := p }

def withName (c : Config) (s : String) : Config := { c with name := some s }

/-- The number of workers on a machine with the given number of processors, which is at least 1. -/
def workerCount (c : Config) (processors : Nat) : Nat :=
  match c.workers with
  | some n => n.toNat
  | none => max processors 1

/-- Whether rings and slabs of these sizes can be built. The capacity is looked at first. -/
def check (c : Config) : Except Error Unit :=
  if c.capacity = 0 then .error (.invalidCapacity 0)
  else if ShardedSlab.isShardCount c.shards.toNat then .ok ()
  else .error (.invalidShardCount c.shards.toNat)

end Config

end RingCall
