import RingCall.Ring.Basic
import RingCall.Steps

/-!
# Handing records over

What storing and taking a record do to the memory of a ring, one access at a time. A producer loads
the tail and then the head, writes a slot and stores the tail. A consumer loads the head and then
the tail, reads a slot and stores the head. An observer loads the tail and then the head, and takes
their distance for the length. The others may go on between any two accesses.

`Handover.step` says what each access does. When nobody else goes on, the accesses of a producer
amount to `Ring.push?` and those of a consumer to `Ring.pop?` (`ring_store`, `ring_fetch`).
-/

namespace RingCall

variable {α : Type}

/-- What a producer does next. -/
inductive Storing (α : Type) where
  /-- Nothing. -/
  | idle
  /-- Load the tail. -/
  | loadingTail (item : α)
  /-- Load the head, and give up if the ring is full. -/
  | loadingHead (item : α) (tail : UInt64)
  /-- Write the record into the tail's slot. -/
  | writing (item : α) (tail : UInt64)
  /-- Store the tail. -/
  | publishing (item : α) (tail : UInt64)
  deriving DecidableEq, Repr

/-- What a consumer does next. -/
inductive Fetching (α : Type) where
  /-- Nothing. -/
  | idle
  /-- Load the head. -/
  | loadingHead
  /-- Load the tail, and give up if the ring is empty. -/
  | loadingTail (head : UInt64)
  /-- Read the head's slot. -/
  | reading (head : UInt64)
  /-- Store the head. -/
  | releasing (item : α) (head : UInt64)
  deriving DecidableEq, Repr

/-- What an observer does next. -/
inductive Sizing where
  /-- Nothing, after it has seen a length. -/
  | idle (seen : Option UInt64)
  /-- Load the tail. -/
  | loadingTail
  /-- Load the head. -/
  | loadingHead (tail : UInt64)
  deriving DecidableEq, Repr

/-- A ring with one producer, one consumer and an observer. -/
structure Handover (α : Type) where
  ring : Ring α
  producer : Storing α
  consumer : Fetching α
  observer : Sizing
  /-- The records behind which the tail has been stored, the oldest first. -/
  stored : List α
  /-- The records behind which the head has been stored, the oldest first. -/
  fetched : List α

/-- What can happen. -/
inductive Access (α : Type) where
  /-- An idle producer is given a record. -/
  | store (item : α)
  /-- The producer goes on. -/
  | produce
  /-- An idle consumer is asked for a record. -/
  | fetch
  /-- The consumer goes on. -/
  | consume
  /-- An idle observer is asked for the length. -/
  | look
  /-- The observer goes on. -/
  | observe
  deriving DecidableEq, Repr

namespace Handover

/-- A ring that nobody is using. -/
def atRest (ring : Ring α) : Handover α := ⟨ring, .idle, .idle, .idle none, [], []⟩

/-- One access of the producer. -/
def stepProducer (h : Handover α) : Option (Handover α) :=
  match h.producer with
  | .idle => none
  | .loadingTail item => some { h with producer := .loadingHead item h.ring.control.tail }
  | .loadingHead item tail =>
    some { h with producer :=
      if tail - h.ring.control.head = h.ring.capacity then .idle else .writing item tail }
  | .writing item tail =>
    let at' := h.ring.slot tail
    some { h with
      ring := { h.ring with slots := fun i ↦ if i = at' then item else h.ring.slots i }
      producer := .publishing item tail }
  | .publishing item tail =>
    some { h with
      ring := { h.ring with control := { h.ring.control with tail := tail + 1 } }
      producer := .idle
      stored := h.stored ++ [item] }

/-- One access of the consumer. -/
def stepConsumer (h : Handover α) : Option (Handover α) :=
  match h.consumer with
  | .idle => none
  | .loadingHead => some { h with consumer := .loadingTail h.ring.control.head }
  | .loadingTail head =>
    some { h with consumer := if h.ring.control.tail = head then .idle else .reading head }
  | .reading head => some { h with consumer := .releasing (h.ring.slots (h.ring.slot head)) head }
  | .releasing item head =>
    some { h with
      ring := { h.ring with control := { h.ring.control with head := head + 1 } }
      consumer := .idle
      fetched := h.fetched ++ [item] }

/-- One access of the observer. -/
def stepObserver (h : Handover α) : Option (Handover α) :=
  match h.observer with
  | .idle _ => none
  | .loadingTail => some { h with observer := .loadingHead h.ring.control.tail }
  | .loadingHead tail => some { h with observer := .idle (some (tail - h.ring.control.head)) }

/-- What happens, if it can. -/
def step (h : Handover α) : Access α → Option (Handover α)
  | .store item =>
    match h.producer with
    | .idle => some { h with producer := .loadingTail item }
    | _ => none
  | .produce => h.stepProducer
  | .fetch =>
    match h.consumer with
    | .idle => some { h with consumer := .loadingHead }
    | _ => none
  | .consume => h.stepConsumer
  | .look =>
    match h.observer with
    | .idle _ => some { h with observer := .loadingTail }
    | _ => none
  | .observe => h.stepObserver

/-- Lets things happen one after another, if all of them can. -/
def run? (h : Handover α) (accesses : List (Access α)) : Option (Handover α) :=
  accesses.foldlM step h

end Handover

end RingCall
