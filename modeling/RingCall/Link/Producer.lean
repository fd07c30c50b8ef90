import RingCall.Link.Basic
import RingCall.Steps

/-!
# Producers

One step of a producer. Sending a record stores it in the ring, unless it does not fit or records
sent before it are parked. A record in the ring is followed, if the request says so, by waking a
consumer that is not at work; the working flag is set under the lock and the signal follows outside
it.

A record that does not fit is parked. The consumer may have made room before it could see the stuck
flag, so the producer looks once more and wakes the drain thread itself.
-/

namespace RingCall.Link

variable {α : Type}

/-- The ring with a record stored, if records may go there directly and it fits. -/
def store? (l : Link α) (item : α) : Option (Ring α) :=
  if l.overflow.isEmpty then l.ring.push? item else none

/-- What a producer does with the lock that it has just taken. A request that needs the lock no
longer than this is answered at once. -/
def takeUp (l : Link α) (i : Nat) (request : Request α) : Link α :=
  match request.sent? with
  | none =>
    if l.ring.isWorking then l.setProducer i (.idle (some .busy))
    else { l with holder := some (.producer i) }.setProducer i (.rousing .notified)
  | some (record, wakes) =>
    match l.store? record.item with
    | none => { l with holder := some (.producer i) }.setProducer i (.flagging record)
    | some ring =>
      if wakes then
        { l with ring, holder := some (.producer i) }.setProducer i (.looking .stored)
      else { l with ring }.setProducer i (.idle (some .stored))

/-- One step of a producer. -/
def stepProducer (i : Nat) (l : Link α) : Option (Link α) :=
  match l.producers i with
  | .idle _ => none
  | .asking request => if l.holder.isSome then none else some (l.takeUp i request)
  | .looking outcome =>
    some (if l.ring.isWorking then { l with holder := none }.setProducer i (.idle (some outcome))
      else l.setProducer i (.rousing outcome))
  | .rousing outcome =>
    some ({ l with ring := l.ring.setWorking true, holder := none }.setProducer i (.waking outcome))
  | .waking outcome =>
    some ((l.signalWake .consumerNotNotified).setProducer i (.idle (some outcome)))
  | .flagging record =>
    some ({ l with ring := l.ring.setStuck true }.setProducer i (.parking record))
  | .parking record =>
    some ({ l with overflow := l.overflow ++ [record] }.setProducer i (.checking record.ticket))
  | .checking ticket =>
    some (if l.ring.isFull then
        { l with holder := none }.setProducer i (.idle (some (.parked ticket)))
      else l.setProducer i (.nudging ticket))
  | .nudging ticket =>
    some ({ l.signalRoom .drainNotWoken with holder := none }.setProducer i
      (.idle (some (.parked ticket))))

/-- The most steps that a request takes once the lock is free. -/
def requestSteps : Nat := 5

/-- Makes a request and lets the producer go on until it is told the outcome, while all other
threads stand still. -/
def request (l : Link α) (i : Nat) (r : Request α) : Option Outcome × Link α :=
  let l := runSteps (stepProducer i) requestSteps (l.setProducer i (.asking r))
  match l.producers i with
  | .idle outcome => (outcome, l)
  | _ => (none, l)

end RingCall.Link
