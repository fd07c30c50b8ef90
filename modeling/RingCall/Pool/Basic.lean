/-!
# Worker pools

A pool runs jobs on a fixed number of workers. Jobs are handed over through a channel of bounded
length, and handing one over never blocks: what does not fit into the channel, or comes while
earlier jobs are spilled, goes to the spill, which is unbounded.

Nobody is woken for a spilled job. Instead a worker that has run a job looks at the spill before it
goes back to the channel, and keeps doing so until it finds the spill empty.

Handing over a job holds the lock of the spill throughout, and a worker needs that lock to look at
the spill. A job that the channel refused and that is not yet in the spill is `held`, and while
there is one the lock is taken. When the pool is closed the workers empty the channel, then the
spill, and end.

`Pool.step` says what each event does and when it can happen, and `Pool.run?` lets events happen one
after another.
-/

namespace RingCall

/-- What a worker does next. A worker that is `leaving` has seen that the channel is closed and
empty. -/
inductive Worker (J : Type) where
  /-- Take a job from the channel. -/
  | waiting
  /-- Run a job to its end. -/
  | running (job : J) (leaving : Bool)
  /-- Look for a spilled job. -/
  | looking (leaving : Bool)
  /-- Nothing any more. -/
  | ended
  deriving DecidableEq, Repr

namespace Worker

variable {J : Type}

/-- The job that a worker runs. -/
def job? : Worker J → Option J
  | running job _ => some job
  | _ => none

end Worker

/-- A pool of workers and the jobs that it has accepted. -/
structure Pool (J : Type) where
  /-- The length of the channel. -/
  depth : Nat
  channel : List J
  spill : List J
  /-- A job on its way into the spill. -/
  held : Option J
  workers : List (Worker J)
  isOpen : Bool
  /-- The jobs that have ended, in that order. -/
  finished : List J
  deriving DecidableEq, Repr

/-- What can happen in a pool. Workers are known by their place. -/
inductive PoolEvent (J : Type) where
  /-- A job is handed over. -/
  | submit (job : J)
  /-- The held job enters the spill. -/
  | append
  /-- A worker takes a job from the channel, or finds it closed. -/
  | receive (worker : Nat)
  /-- The job of a worker ends: it returns, or it panics and the worker catches that. -/
  | finish (worker : Nat) (panics : Bool)
  /-- A worker looks at the spill. -/
  | look (worker : Nat)
  /-- The pool is closed. -/
  | close
  deriving DecidableEq, Repr

namespace Pool

variable {J : Type}

/-- A pool of at least one worker with a channel of length at least one. -/
def new (workers depth : Nat) : Pool J where
  depth := max depth 1
  channel := []
  spill := []
  held := none
  workers := List.replicate (max workers 1) .waiting
  isOpen := true
  finished := []

/-- The number of workers. -/
def size (p : Pool J) : Nat := p.workers.length

/-- The number of jobs that were accepted and that no worker has taken. -/
def queued (p : Pool J) : Nat := p.channel.length + p.spill.length

/-- The jobs that workers are running, in the order of the workers. -/
def inHand (p : Pool J) : List J := p.workers.filterMap Worker.job?

/-- Sets what a worker does next. -/
def setWorker (p : Pool J) (i : Nat) (w : Worker J) : Pool J :=
  { p with workers := p.workers.set i w }

/-- Hands a job over, while nobody holds the lock of the spill. -/
def submit? (p : Pool J) (job : J) : Option (Pool J) :=
  if !p.isOpen || p.held.isSome then none
  else if !p.spill.isEmpty then some { p with spill := p.spill ++ [job] }
  else if p.channel.length < p.depth then some { p with channel := p.channel ++ [job] }
  else some { p with held := some job }

/-- Puts the held job into the spill. -/
def append? (p : Pool J) : Option (Pool J) :=
  p.held.map fun job ↦ { p with spill := p.spill ++ [job], held := none }

/-- A worker at the channel takes a job, or turns to leave if there will be none. -/
def receive? (p : Pool J) (i : Nat) : Option (Pool J) :=
  match p.workers[i]?, p.channel with
  | some .waiting, job :: rest => some ({ p with channel := rest }.setWorker i (.running job false))
  | some .waiting, [] => if p.isOpen then none else some (p.setWorker i (.looking true))
  | _, _ => none

/-- The job of a worker ends. How it ended makes no difference to the worker. -/
def finish? (p : Pool J) (i : Nat) : Option (Pool J) :=
  match p.workers[i]? with
  | some (.running job leaving) =>
    some ({ p with finished := p.finished ++ [job] }.setWorker i (.looking leaving))
  | _ => none

/-- A worker looks at the spill, while nobody holds its lock. -/
def look? (p : Pool J) (i : Nat) : Option (Pool J) :=
  match p.workers[i]?, p.held, p.spill with
  | some (.looking leaving), none, job :: rest =>
    some ({ p with spill := rest }.setWorker i (.running job leaving))
  | some (.looking leaving), none, [] =>
    some (p.setWorker i (if leaving then .ended else .waiting))
  | _, _, _ => none

/-- Closes the pool, once nobody is handing over a job. -/
def close? (p : Pool J) : Option (Pool J) :=
  if p.isOpen && p.held.isNone then some { p with isOpen := false } else none

/-- What an event does, if it can happen. -/
def step (p : Pool J) : PoolEvent J → Option (Pool J)
  | .submit job => p.submit? job
  | .append => p.append?
  | .receive i => p.receive? i
  | .finish i _ => p.finish? i
  | .look i => p.look? i
  | .close => p.close?

/-- Lets things happen one after another, if all of them can. -/
def run? (p : Pool J) (events : List (PoolEvent J)) : Option (Pool J) := events.foldlM step p

end Pool

end RingCall
