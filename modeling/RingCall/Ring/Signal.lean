import RingCall.Failure.Error

/-!
# Signals

One thread wakes another through a descriptor that counts notifications. Waiting takes the whole
count, and blocks while it is zero. A descriptor may also be one that is not open: then notifying
and waiting fail. A negative number is passed over by a poll, whereas a number that merely is not
open is reported as ready and then fails when it is read.
-/

namespace RingCall

/-- A descriptor that is used as a signal. -/
inductive Signal where
  /-- An open descriptor with its count of notifications. -/
  | counting (pending : Nat)
  /-- A negative number. -/
  | negative
  /-- A number that is not that of an open descriptor. -/
  | unopened
  deriving DecidableEq, Repr

/-- How an attempt to wait ends. -/
inductive Waited (α : Type) where
  /-- The thread goes on. -/
  | ready (value : α)
  /-- The thread stays blocked until it is notified. -/
  | blocked
  | failed (cause : IoError)
  deriving DecidableEq, Repr

namespace Signal

/-- A signal that nobody has notified. -/
def quiet : Signal := counting 0

/-- The number of notifications that nobody has waited for. -/
def pending : Signal → Nat
  | counting n => n
  | negative | unopened => 0

/-- Adds a notification. -/
def notify : Signal → Except IoError Signal
  | counting n => .ok (counting (n + 1))
  | negative | unopened => .error .badDescriptor

/-- Adds a number of notifications, one after the other. -/
def notifyTimes (s : Signal) : Nat → Except IoError Signal
  | 0 => .ok s
  | n + 1 => do (← s.notify).notifyTimes n

/-- Waits for a notification and takes the count. -/
def wait : Signal → Waited Nat × Signal
  | counting 0 => (.blocked, counting 0)
  | counting (n + 1) => (.ready (n + 1), counting 0)
  | s => (.failed .badDescriptor, s)

/-- Polls for a notification, and takes the count if there is one. Answers the number of ready
descriptors. Without a notification the poll ends after its time, if it has one. -/
def poll (timed : Bool) : Signal → Waited Nat × Signal
  | counting (_ + 1) => (.ready 1, counting 0)
  | unopened => (.failed .badDescriptor, unopened)
  | s => (if timed then .ready 0 else .blocked, s)

end Signal

end RingCall
