/-!
# Idling

What a consumer does between finding its ring empty and blocking until it is woken. An `IdlePolicy`
is chosen once. The `Waiter` that it makes is asked again and again during an idle period: `reset`
starts the period, and each `wait` is one step, which answers whether the consumer should give up
and block.

* Yielding gives up at its first step.
* Sleeping gives up once the time slept exceeds a ceiling.
* Spinning gives up after a number of rounds. Right after a busy stretch, and unless the consumer
  had just been woken, it takes twice as many.

`patience` says how many steps in a row will answer "not yet", or that all of them will.
-/

namespace RingCall

/-- How a consumer idles. All times are numbers of one unit, which may be as fine as a clock
counts. -/
inductive IdlePolicy where
  /-- Yield the processor once. -/
  | yield
  /-- Sleep for `interval` until more than `max` was slept. -/
  | sleep (interval max : Nat)
  /-- Spin for a number of rounds. -/
  | spin (rounds : UInt32)
  deriving DecidableEq, Repr

instance : Inhabited IdlePolicy := ⟨.yield⟩

/-- A consumer's idling in progress. -/
inductive Waiter where
  | yielding
  /-- The time slept in this period. -/
  | sleeping (interval max slept : Nat)
  /-- The rounds granted to this period and those taken. -/
  | spinning (rounds : UInt32) (budget taken : Nat)
  deriving DecidableEq, Repr

/-- The waiter of a policy. -/
def IdlePolicy.waiter : IdlePolicy → Waiter
  | yield => .yielding
  | sleep interval max => .sleeping interval max 0
  | spin rounds => .spinning rounds rounds.toNat 0

namespace Waiter

/-- As many records in one go count as a busy stretch. -/
def busyThreshold : Nat := 32

/-- The rounds granted after a busy stretch: twice as many, or as many as a word can count. -/
def doubled (rounds : UInt32) : Nat := min (2 * rounds.toNat) (UInt32.size - 1)

/-- Starts an idle period. The consumer took `recentWork` records since the last one, and `waited`
tells whether it had been blocked before that. -/
def reset (recentWork : Nat) (waited : Bool) : Waiter → Waiter
  | yielding => yielding
  | sleeping interval max _ => sleeping interval max 0
  | spinning rounds _ _ =>
    spinning rounds
      (if !waited && busyThreshold ≤ recentWork then doubled rounds else rounds.toNat) 0

/-- One step of idling. Answers whether the consumer should give up and block. -/
def wait : Waiter → Bool × Waiter
  | yielding => (true, yielding)
  | sleeping interval max slept =>
    (max < slept + interval, sleeping interval max (slept + interval))
  | spinning rounds budget taken => (budget ≤ taken + 1, spinning rounds budget (taken + 1))

/-- Waits until a step gives up, but at most `limit` times. Answers how many steps did not. -/
def drain : Nat → Waiter → Nat × Waiter
  | 0, w => (0, w)
  | limit + 1, w =>
    match w.wait with
    | (true, w) => (0, w)
    | (false, w) =>
      let (n, w) := drain limit w
      (n + 1, w)

/-- The number of steps until one gives up, that one left out; `none` if none ever does. -/
def patience : Waiter → Option Nat
  | yielding => some 0
  | sleeping interval max slept =>
    if max < slept + interval then some 0
    else if interval = 0 then none
    else some ((max - slept) / interval)
  | spinning _ budget taken => some (budget - (taken + 1))

/-- The waiter just before the next step that gives up, if there is one. -/
def exhausted? (w : Waiter) : Option Waiter :=
  w.patience.map fun n ↦ match w with
    | yielding => yielding
    | sleeping interval max slept => sleeping interval max (slept + n * interval)
    | spinning rounds budget taken => spinning rounds budget (taken + n)

end Waiter

end RingCall
