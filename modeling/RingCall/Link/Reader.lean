import RingCall.Link.Basic
import RingCall.Steps

/-!
# The reader

One step of the read end. Taking a record also looks whether the write end is stuck, and whoever
clears the stuck flag wakes the drain thread.

A consumer's loop takes and handles records until there are none, then idles, and then clears the
working flag. A record may have come in before the producers could see that, so it looks once more
before it blocks. When the loop ends it clears the flag in the same way.

Handling a record is a step of its own (`handle`), since a handler may take its time. It may also
ask its own consumer to end, and it may panic.
-/

namespace RingCall.Link

variable {α : Type}

/-- One step of taking a record: what comes next, or the record that was taken if that was all. -/
def stepTaking (l : Link α) : Taking α → (Taking α ⊕ Option α) × Link α
  | .taking =>
    match l.ring.pop? with
    | some (item, ring) => (.inl (.looking (some item)), { l with ring })
    | none => (.inl (.looking none), l)
  | .looking got => (if l.ring.isStuck then .inl (.clearing got) else .inr got, l)
  | .clearing got =>
    (if l.ring.isStuck then .inl (.nudging got) else .inr got,
      { l with ring := l.ring.setStuck false })
  | .nudging got => (.inr got, l.signalRoom .producerNotNotified)

/-- One step of a consumer's loop. Handling a record is no such step. -/
def stepLoop (l : Link α) (waiter : Waiter) : Stage α → Option (Link α)
  | .starting =>
    some { l with ring := l.ring.setWorking true, reader := .looping waiter (.heading false) }
  | .heading woken =>
    let next : Stage α := if l.stopping then .clearing true else .draining .taking 0 woken
    some { l with reader := .looping waiter next }
  | .draining stage count woken =>
    let (next, l) := l.stepTaking stage
    let reader : Reader α := match next with
      | .inl stage => .looping waiter (.draining stage count woken)
      | .inr (some item) => .looping waiter (.handling item count woken)
      | .inr none => .looping (waiter.reset count woken) .idling
    some { l with reader }
  | .handling _ _ _ => none
  | .idling =>
    let (done, waiter) := waiter.wait
    let next : Stage α :=
      if !l.ring.isEmpty then .heading false
      else if done || l.stopping then .clearing false
      else .idling
    some { l with reader := .looping waiter next }
  | .clearing leaving =>
    some { l with ring := l.ring.setWorking false, reader := .looping waiter (.checking leaving) }
  | .checking leaving =>
    let next : Reader α :=
      if l.ring.isEmpty then if leaving then .away else .looping waiter .blocking
      else .looping waiter (.resuming leaving)
    some { l with reader := next }
  | .resuming leaving =>
    let next : Reader α := if leaving then .away else .looping waiter (.heading false)
    some { l with ring := l.ring.setWorking true, reader := next }
  | .blocking =>
    match l.wake.wait with
    | (.ready _, wake) => some { l with wake, reader := .looping waiter .waking }
    | (.blocked, _) => none
    | (.failed cause, _) =>
      some { l.report (.readerWaitFailed cause) with reader := .looping waiter (.clearing true) }
  | .waking =>
    some { l with ring := l.ring.setWorking true, reader := .looping waiter (.heading true) }

/-- One step of the read end. -/
def stepReader (l : Link α) : Option (Link α) :=
  match l.reader with
  | .away | .popped _ | .crashed => none
  | .popping stage =>
    let (next, l) := l.stepTaking stage
    let reader : Reader α := match next with
      | .inl stage => .popping stage
      | .inr got => .popped got
    some { l with reader }
  | .looping waiter stage => l.stepLoop waiter stage

/-- Asks the consumer to end and wakes it. -/
def askToStop (l : Link α) : Link α :=
  { l with stopping := true }.signalWake .readerNotWokenToStop

/-- The handler's work on the record in its hand. `quits` tells whether it asks its own consumer to
end, and `panics` whether it then panics. -/
def handle (l : Link α) (quits panics : Bool) : Option (Link α) :=
  match l.reader with
  | .looping waiter (.handling item count woken) =>
    let l := { l with handled := l.handled.push item }
    let l := if quits then l.askToStop else l
    let next : Reader α :=
      if panics then .crashed else .looping waiter (.draining .taking (count + 1) woken)
    some { l with reader := next }
  | _ => none

/-- The most steps that taking one record takes. -/
def popSteps : Nat := 4

/-- Takes a record, while all other threads stand still. -/
def pop (l : Link α) : Option α × Link α :=
  let l := runSteps stepReader popSteps { l with reader := .popping .taking }
  match l.reader with
  | .popped got => (got, l)
  | _ => (none, l)

end RingCall.Link
