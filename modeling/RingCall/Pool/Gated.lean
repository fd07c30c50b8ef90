import RingCall.Pool.Settle

/-!
# Pools of gated jobs

Jobs are known by number, and some are gated: such a job blocks its worker until it is released.
After each request the pool settles, so the jobs in hand are the ones that are blocked.
-/

namespace RingCall

/-- A job that may have to be released before it can end. -/
structure GatedJob where
  id : Nat
  isGated : Bool
  deriving DecidableEq, Repr

/-- A pool of such jobs and the jobs that were released. -/
structure GatedPool where
  pool : Pool GatedJob
  released : List Nat
  deriving Repr

namespace GatedPool

def new (workers depth : Nat) : GatedPool := ⟨.new workers depth, []⟩

/-- Whether nothing keeps a job from ending. -/
def isReady (p : GatedPool) (job : GatedJob) : Bool := !job.isGated || p.released.contains job.id

def settle (p : GatedPool) : GatedPool := { p with pool := p.pool.settle p.isReady }

/-- Hands a job over. -/
def submit (p : GatedPool) (job : GatedJob) : GatedPool :=
  settle { p with pool := p.pool.submit job }

/-- The jobs that block a worker, in the order of their numbers. -/
def blocked (p : GatedPool) : List Nat := (p.pool.inHand.map (·.id)).mergeSort

/-- Lets a blocked job go on. Answers whether it was blocked. -/
def release (p : GatedPool) (id : Nat) : Bool × GatedPool :=
  if p.blocked.contains id then (true, settle { p with released := id :: p.released })
  else (false, p)

/-- Releases the blocked job of the lowest number, time and again, at most `n` times. -/
def releaseLowest : Nat → GatedPool → GatedPool
  | 0, p => p
  | n + 1, p =>
    match p.blocked with
    | [] => p
    | id :: _ => releaseLowest n (p.release id).2

/-- Releases blocked jobs, the lowest number first, until none is left. -/
def releaseAll (p : GatedPool) : GatedPool := releaseLowest (p.pool.queued + p.pool.size) p

/-- Closes the pool and lets its workers finish what was accepted. -/
def shutDown (p : GatedPool) : GatedPool := { p with pool := p.pool.shutDown p.isReady }

/-- Takes the list of the jobs that have ended since it was last taken. -/
def takeFinished (p : GatedPool) : List Nat × GatedPool :=
  let (jobs, pool) := p.pool.takeFinished
  (jobs.map (·.id), { p with pool })

end GatedPool

end RingCall
