import RingCall.Link.Drain
import RingCall.Link.Producer
import RingCall.Link.Reader

/-!
# Settling

After something was asked of a link its threads go on until none of them can: the drain thread waits
for room or has ended, and the consumer is blocked, or waits for its handler, or has ended. Such a
link is settled.

`settle` lets the drain thread go on while it can and otherwise the reader. It passes over the steps
of an idle period at once: as long as the ring is empty and nobody asks the consumer to stop, idling
ends with the step that gives up, and a consumer that never gives up stays as it is.
-/

namespace RingCall.Link

variable {α : Type}

/-- The end of an idle period in which nothing happens, if it has one. -/
def idleOut (l : Link α) (waiter : Waiter) : Option (Link α) :=
  waiter.exhausted?.bind fun waiter ↦ l.stepLoop waiter .idling

/-- One step of a thread of the link. -/
def advance (l : Link α) : Option (Link α) :=
  match l.stepDrain with
  | some l => some l
  | none =>
    match l.reader with
    | .looping waiter .idling =>
      if l.ring.isEmpty && !l.stopping then l.idleOut waiter else l.stepReader
    | _ => l.stepReader

/-- One step of a thread of the link, or of a handler that always returns. -/
def advanceFreely (l : Link α) : Option (Link α) :=
  match l.advance with
  | some l => some l
  | none => l.handle false false

/-- A bound on the steps to a settled link. A record takes fewer than fifty: it enters the ring, is
taken and is handled, and on the way each end wakes the other at most once. -/
def effort (l : Link α) : Nat := 64 * (l.ring.len.toNat + l.overflow.length + 4)

/-- Lets the threads go on until the link is settled. Handlers always return. -/
def settle (l : Link α) : Link α := runSteps advanceFreely l.effort l

/-- Starts a consumer. -/
def start (l : Link α) (policy : IdlePolicy) : Link α :=
  { l with reader := .looping policy.waiter .starting, stopping := false }

/-- Takes records one by one, at most `n` of them. -/
def popUpTo : Nat → Link α → List α × Link α
  | 0, l => ([], l)
  | n + 1, l =>
    match l.pop with
    | (none, l) => ([], l.settle)
    | (some item, l) =>
      let (items, l) := popUpTo n l.settle
      (item :: items, l)

/-- Takes all records that were sent. -/
def popAll (l : Link α) : List α × Link α :=
  l.popUpTo (l.ring.len.toNat + l.overflow.length)

/-- Ends the write end: the drain thread ends and its parked records are lost. -/
def close (l : Link α) : Link α :=
  { l with closing := true }.signalRoom .drainNotWokenToStop

/-- Opens the write end again, with nothing parked. -/
def reopen (l : Link α) : Link α :=
  { l with overflow := [], holder := none, drain := .starting, closing := false }

/-- Whether a parked record has entered the ring. -/
def hasLanded (l : Link α) (ticket : Nat) : Bool := l.landed.contains ticket

/-- Waits until a parked record has entered the ring. A record that is lost will not. -/
def await (l : Link α) (ticket : Nat) : Waited (Except Error Unit) :=
  if l.hasLanded ticket then .ready (.ok ())
  else if l.overflow.any (·.ticket == some ticket) then .blocked
  else .ready (.error .disconnected)

end RingCall.Link
