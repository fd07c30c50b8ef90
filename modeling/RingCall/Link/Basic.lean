import RingCall.Failure.Report
import RingCall.Ring.Basic
import RingCall.Ring.Idle
import RingCall.Ring.Signal

/-!
# Links

A link is a ring with its two ends at work. At the write end any number of producers share one lock.
A record that does not fit into the ring is parked in an overflow queue, from which a drain thread
moves records into the ring once there is room. At the read end a single reader takes records,
either one pop at a time or in a consumer's loop.

Two signals connect the ends: `wake` is for a consumer that found the ring empty, and `room` is for
a drain thread that found it full.

Threads are programs: each has a stage, which says what it does next, and one step of a thread is
one access to what is shared. A step that takes the lock is possible only while nobody holds it.
Whatever the order of the steps, they are described by four functions, one for each kind of thread
(`stepProducer`, `stepDrain`, `stepReader`, `handle`). This module holds the stages and the state.
-/

namespace RingCall

variable {α : Type}

/-! ### The write end -/

/-- A record held back, and the ticket of the producer that waits for it to enter the ring. -/
structure Parked (α : Type) where
  item : α
  ticket : Option Nat
  deriving DecidableEq, Repr

/-- What a producer asks for. -/
inductive Request (α : Type) where
  /-- Send a record and wake the consumer. -/
  | push (item : α)
  /-- Send a record without waking the consumer. -/
  | pushQuietly (item : α)
  /-- Send a record and wake the consumer. If the record is parked, its ticket tells when it has
  entered the ring. -/
  | pushAwaited (item : α) (ticket : Nat)
  /-- Wake the consumer. -/
  | notify
  deriving DecidableEq, Repr

namespace Request

/-- The record that is to be sent, with its ticket, and whether the consumer is to be woken. -/
def sent? : Request α → Option (Parked α × Bool)
  | push item => some (⟨item, none⟩, true)
  | pushQuietly item => some (⟨item, none⟩, false)
  | pushAwaited item ticket => some (⟨item, some ticket⟩, true)
  | notify => none

end Request

/-- What a producer is told. -/
inductive Outcome where
  /-- The record is in the ring. -/
  | stored
  /-- The record is held back. -/
  | parked (ticket : Option Nat)
  /-- The consumer was idle and is woken. -/
  | notified
  /-- The consumer is at work. -/
  | busy
  deriving DecidableEq, Repr

/-- What a producer does next. -/
inductive Producer (α : Type) where
  /-- Nothing, after it was told the outcome of its last request. -/
  | idle (last : Option Outcome)
  /-- Take the lock and, if a record is to be sent that fits, store it. -/
  | asking (request : Request α)
  /-- Look whether the consumer is at work. -/
  | looking (outcome : Outcome)
  /-- Set the working flag and leave the lock. -/
  | rousing (outcome : Outcome)
  /-- Signal the consumer. -/
  | waking (outcome : Outcome)
  /-- Set the stuck flag for a record that did not fit. -/
  | flagging (record : Parked α)
  /-- Append the record to the overflow. -/
  | parking (record : Parked α)
  /-- Look whether the ring is still full. -/
  | checking (ticket : Option Nat)
  /-- Signal the drain thread. -/
  | nudging (ticket : Option Nat)
  deriving DecidableEq, Repr

/-- What the drain thread does next. -/
inductive Drain where
  /-- Look whether the write end is closing. -/
  | starting
  /-- Take the lock. -/
  | locking
  /-- Move a record into the ring, if there is one and it fits. -/
  | flushing (moved : Bool)
  /-- Look whether the consumer is at work. -/
  | looking
  /-- Set the working flag. -/
  | rousing
  /-- Signal the consumer. -/
  | waking
  /-- Set or clear the stuck flag. -/
  | grading
  /-- Look whether the ring is still full. -/
  | checking
  /-- Wait for room. -/
  | resting
  /-- Nothing any more. -/
  | ended
  deriving DecidableEq, Repr

/-- Who holds the lock of the write end. -/
inductive Holder where
  | producer (i : Nat)
  | drain
  deriving DecidableEq, Repr

/-! ### The read end -/

/-- What comes next when a record is taken. -/
inductive Taking (α : Type) where
  /-- Take the record at the head, if there is one. -/
  | taking
  /-- Look whether the write end is stuck. -/
  | looking (got : Option α)
  /-- Clear the stuck flag. -/
  | clearing (got : Option α)
  /-- Signal the drain thread. -/
  | nudging (got : Option α)
  deriving DecidableEq, Repr

/-- What a consumer's loop does next. -/
inductive Stage (α : Type) where
  /-- Set the working flag. -/
  | starting
  /-- Look whether to stop. `woken` tells whether the loop was blocked just before. -/
  | heading (woken : Bool)
  /-- Take a record. `count` were taken since the loop last looked whether to stop. -/
  | draining (stage : Taking α) (count : Nat) (woken : Bool)
  /-- Handle a record. -/
  | handling (item : α) (count : Nat) (woken : Bool)
  /-- Idle for a step, and look whether there is a record or the loop is to stop. -/
  | idling
  /-- Clear the working flag, before the loop blocks or, if it is `leaving`, before it ends. -/
  | clearing (leaving : Bool)
  /-- Look whether the ring is empty. -/
  | checking (leaving : Bool)
  /-- Set the working flag again. -/
  | resuming (leaving : Bool)
  /-- Wait for a record. -/
  | blocking
  /-- Set the working flag after a wait. -/
  | waking
  deriving DecidableEq, Repr

/-- What the read end does next. -/
inductive Reader (α : Type) where
  /-- Nothing. -/
  | away
  /-- Take one record. -/
  | popping (stage : Taking α)
  /-- Nothing, after one pop. -/
  | popped (got : Option α)
  /-- Go on in a consumer's loop. -/
  | looping (waiter : Waiter) (stage : Stage α)
  /-- Nothing any more, since the consumer's handler panicked. -/
  | crashed
  deriving DecidableEq, Repr

namespace Reader

/-- Whether a consumer's loop is running. -/
def isLooping : Reader α → Bool
  | looping _ _ => true
  | _ => false

/-- The record that a handler holds. -/
def inHand? : Reader α → Option α
  | looping _ (.handling item _ _) => some item
  | _ => none

end Reader

/-! ### Both ends -/

/-- A ring with its two ends at work. -/
structure Link (α : Type) where
  ring : Ring α
  /-- Wakes the consumer. -/
  wake : Signal
  /-- Wakes the drain thread. -/
  room : Signal
  /-- The records that did not fit, in the order in which they were sent. -/
  overflow : List (Parked α)
  holder : Option Holder
  producers : Nat → Producer α
  drain : Drain
  /-- Whether the drain thread is to end. -/
  closing : Bool
  reader : Reader α
  /-- Whether the consumer is to end. -/
  stopping : Bool
  /-- The tickets of parked records that have entered the ring. -/
  landed : List Nat
  /-- The records handed to the consumer's handler, the oldest first. -/
  handled : Array α
  reports : Array Report

namespace Link

/-- A link whose write end has just been opened and whose read end is idle. -/
def opened (ring : Ring α) (wake room : Signal) : Link α where
  ring := ring
  wake := wake
  room := room
  overflow := []
  holder := none
  producers := fun _ ↦ .idle none
  drain := .starting
  closing := false
  reader := .away
  stopping := false
  landed := []
  handled := #[]
  reports := #[]

/-- Sets what a producer does next. -/
def setProducer (l : Link α) (i : Nat) (p : Producer α) : Link α :=
  { l with producers := fun j ↦ if j = i then p else l.producers j }

/-- Adds a report. -/
def report (l : Link α) (r : Report) : Link α :=
  { l with reports := l.reports.push r }

/-- Signals the consumer. A failure is reported. -/
def signalWake (l : Link α) (failed : IoError → Report) : Link α :=
  match l.wake.notify with
  | .ok wake => { l with wake }
  | .error cause => l.report (failed cause)

/-- Signals the drain thread. A failure is reported. -/
def signalRoom (l : Link α) (failed : IoError → Report) : Link α :=
  match l.room.notify with
  | .ok room => { l with room }
  | .error cause => l.report (failed cause)

end Link

end RingCall
