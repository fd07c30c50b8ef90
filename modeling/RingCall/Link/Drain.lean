import RingCall.Link.Basic

/-!
# The drain thread

One step of the drain thread. Under the lock it moves parked records into the ring, in order, until
one does not fit. If it moved any it wakes a consumer that is not at work. Then it clears the stuck
flag if nothing is parked any more; otherwise it sets the flag and looks once more whether the ring
is full, since the consumer may have made room meanwhile. Outside the lock it waits to be told of
room.
-/

namespace RingCall.Link

variable {α : Type}

/-- The link after the oldest parked record has entered the ring, if there is one and it fits. -/
def moveOne? (l : Link α) : Option (Link α) :=
  match l.overflow with
  | [] => none
  | record :: rest => (l.ring.push? record.item).map fun ring ↦
      { l with ring, overflow := rest, landed := l.landed ++ record.ticket.toList }

/-- One step of the drain thread. -/
def stepDrain (l : Link α) : Option (Link α) :=
  match l.drain with
  | .starting => some { l with drain := if l.closing then .ended else .locking }
  | .locking =>
    if l.holder.isSome then none
    else some { l with holder := some .drain, drain := .flushing false }
  | .flushing moved =>
    match l.moveOne? with
    | some l => some { l with drain := .flushing true }
    | none => some { l with drain := if moved then .looking else .grading }
  | .looking => some { l with drain := if l.ring.isWorking then .grading else .rousing }
  | .rousing => some { l with ring := l.ring.setWorking true, drain := .waking }
  | .waking => some { l.signalWake .consumerNotNotified with drain := .grading }
  | .grading =>
    if l.overflow.isEmpty then
      some { l with ring := l.ring.setStuck false, holder := none, drain := .resting }
    else some { l with ring := l.ring.setStuck true, drain := .checking }
  | .checking =>
    some { l with holder := none, drain := if l.ring.isFull then .resting else .starting }
  | .resting =>
    match l.room.wait with
    | (.ready _, room) => some { l with room, drain := .starting }
    | (.blocked, _) => none
    | (.failed cause, _) => some { l.report (.drainWaitFailed cause) with drain := .ended }
  | .ended => none

end RingCall.Link
