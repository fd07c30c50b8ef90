import RingCall.Pool.Basic
import RingCall.Steps

/-!
# Settling a pool

After something was asked of a pool its workers go on until none of them can: each waits for a job,
runs one that is not ready to end, or has ended. Jobs may be blocked, so whether a job is ready to
end is a parameter.
-/

namespace RingCall.Pool

variable {J : Type}

/-- One step of a worker, whose job ends if it is ready to. -/
def advanceWorker (ready : J → Bool) (p : Pool J) (i : Nat) : Option (Pool J) :=
  match p.workers[i]? with
  | some .waiting => p.receive? i
  | some (.running job _) => if ready job then p.finish? i else none
  | some (.looking _) => p.look? i
  | some .ended | none => none

/-- One step of the first worker that can go on. -/
def advance (ready : J → Bool) (p : Pool J) : Option (Pool J) :=
  (List.range p.size).findSome? (p.advanceWorker ready)

/-- A bound on the steps to a settled pool: each job is taken, ends, and is followed by a look at
the spill, and each worker may have to leave. -/
def effort (p : Pool J) : Nat := 3 * (p.queued + p.size) + 3 * p.size + 3

/-- Lets the workers go on until the pool is settled. -/
def settle (ready : J → Bool) (p : Pool J) : Pool J := runSteps (advance ready) p.effort p

/-- Hands a job over, unless the pool is closed. -/
def submit (p : Pool J) (job : J) : Pool J :=
  match p.submit? job with
  | some p => p.append?.getD p
  | none => p

/-- Closes the pool and lets the workers finish what was accepted. -/
def shutDown (ready : J → Bool) (p : Pool J) : Pool J := settle ready (p.close?.getD p)

/-- Takes the list of the jobs that have ended since it was last taken. -/
def takeFinished (p : Pool J) : List J × Pool J := (p.finished, { p with finished := [] })

end RingCall.Pool
