import RingCall.Link.Settle
import RingCall.Pool.Settle
import RingCall.Ring.Record

/-!
# Schedules

Threads of their own read the ring of an end, put records into it that were parked, and serve calls.
When something is asked of the ring or of the pool, they take turns until they have nothing to do. A
schedule says in which order they do so, by what becomes of the ring and of the pool.
-/

namespace RingCall

/-- In which order the threads of an end take turns. The order may differ from one time to the next,
since it may depend on all that there is to the ring and to the pool. -/
structure Schedule where
  /-- What becomes of the ring that an end reads, after a record was asked to be sent there, or a
  consumer was started. -/
  link : Link Record → Link Record
  /-- What becomes of the pool, after a call was handed over, or came to its end. -/
  pool : Pool Record → Pool Record

/-- One thread after the other: first whoever sends a record, then the drain thread whenever it can
go on, and otherwise the consumer. Of the workers the first one goes first. -/
def Schedule.inTurn : Schedule where
  link l := (runSteps (Link.stepProducer 0) Link.requestSteps l).settle
  -- a call ends only when it was served
  pool p := p.settle fun _ ↦ false

end RingCall
