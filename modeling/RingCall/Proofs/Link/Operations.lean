import RingCall.Link.Settle
import RingCall.Proofs.Link.Lock
import RingCall.Proofs.Steps

/-!
# Operations as a whole

What a request, a single pop and a pass of the drain thread do to a link when nobody else goes on
meanwhile. The steps of a request amount to `fulfil` and those of a pop to `release`
(`request_eq`, `pop_eq`).
-/

namespace RingCall

variable {α : Type} {l l' : Link α}

namespace Link

/-! ### Requests -/

/-- What a producer is told that makes a request while the lock is free. -/
def answer (l : Link α) (r : Request α) : Outcome :=
  match r.sent? with
  | none => if l.ring.isWorking then .busy else .notified
  | some (record, _) => if (l.store? record.item).isSome then .stored else .parked record.ticket

/-- Sets the working flag and signals the consumer, unless the flag is set. -/
def rouse (l : Link α) : Link α :=
  if l.ring.isWorking then l
  else { l with ring := l.ring.setWorking true }.signalWake .consumerNotNotified

/-- Sets the stuck flag, appends a record to the overflow and signals the drain thread if the ring
is not full any more. -/
def park (l : Link α) (record : Parked α) : Link α :=
  let l := { l with ring := l.ring.setStuck true, overflow := l.overflow ++ [record] }
  if l.ring.isFull then l else l.signalRoom .drainNotWoken

/-- What a request does to a link whose lock is free. -/
def fulfil (l : Link α) (r : Request α) : Link α :=
  match r.sent? with
  | none => l.rouse
  | some (record, wakes) =>
    match l.store? record.item with
    | none => l.park record
    | some ring => if wakes then { l with ring }.rouse else { l with ring }

/-- Whether a record can be stored depends on the ring and on the parked records. -/
theorem store?_congr {m : Link α} (hring : m.ring = l.ring) (hover : m.overflow = l.overflow)
    (item : α) : m.store? item = l.store? item := by
  rw [store?, store?, hring, hover]

/-- A request that nobody is in the way of is fulfilled at once. -/
theorem request_eq (hfree : l.holder = none) (i : Nat) (r : Request α) :
    l.request i r =
      (some (l.answer r), (l.fulfil r).setProducer i (.idle (some (l.answer r)))) := by
  have hset : ∀ (p q : Producer α) (f : Nat → Producer α),
      (fun j ↦ if j = i then p else if j = i then q else f j) = fun j ↦
        if j = i then p else f j := by
    intro p q f
    funext j
    split <;> rfl
  -- in each case the steps are known, and all are taken by evaluation
  cases hr : r.sent? with
  | none =>
    cases hw : l.ring.isWorking <;>
      simp [request, requestSteps, runSteps, stepProducer, takeUp, setProducer, signalWake_eq, hset,
        answer, fulfil, rouse, hfree, hr, hw]
  | some sent =>
    obtain ⟨record, wakes⟩ := sent
    rcases hs : l.store? record.item with - | ring
    · have hstore : ∀ m : Link α, m.ring = l.ring → m.overflow = l.overflow →
          m.store? record.item = none := fun m h k ↦ (store?_congr h k record.item).trans hs
      cases hfull : (l.ring.setStuck true).isFull <;>
        simp [request, requestSteps, runSteps, stepProducer, takeUp, setProducer,
          signalRoom_eq, hset, answer, fulfil, park, hfree, hr, hs, hstore, hfull]
    · have hstore : ∀ m : Link α, m.ring = l.ring → m.overflow = l.overflow →
          m.store? record.item = some ring := fun m h k ↦ (store?_congr h k record.item).trans hs
      cases wakes <;> cases hw : ring.isWorking <;>
        simp [request, requestSteps, runSteps, stepProducer, takeUp, setProducer,
          signalWake_eq, hset, answer, fulfil, rouse, hfree, hr, hs, hstore, hw]

section Fulfil

variable (l : Link α) (r : Request α)

@[simp] theorem holder_fulfil : (l.fulfil r).holder = l.holder := by
  unfold fulfil rouse park
  grind [holder_signalWake, holder_signalRoom]

@[simp] theorem producers_fulfil : (l.fulfil r).producers = l.producers := by
  unfold fulfil rouse park
  grind [producers_signalWake, producers_signalRoom]

@[simp] theorem drain_fulfil : (l.fulfil r).drain = l.drain := by
  unfold fulfil rouse park
  grind [drain_signalWake, drain_signalRoom]

end Fulfil

/-! ### Single pops -/

/-- Clears the stuck flag and signals the drain thread, if the flag is set. -/
def release (l : Link α) : Link α :=
  if l.ring.isStuck then
    { l with ring := l.ring.setStuck false }.signalRoom .producerNotNotified
  else l

/-- Takes the record at the head, if there is one. -/
def fetch (l : Link α) : Link α :=
  match l.ring.pop? with
  | some (_, ring) => { l with ring }
  | none => l

section Fetch

variable (l : Link α)

@[simp] theorem holder_release : l.release.holder = l.holder := by
  rw [release]; split <;> simp

@[simp] theorem producers_release : l.release.producers = l.producers := by
  rw [release]; split <;> simp

@[simp] theorem drain_release : l.release.drain = l.drain := by
  rw [release]; split <;> simp

@[simp] theorem holder_fetch : l.fetch.holder = l.holder := by
  rw [fetch]; split <;> rfl

@[simp] theorem producers_fetch : l.fetch.producers = l.producers := by
  rw [fetch]; split <;> rfl

@[simp] theorem drain_fetch : l.fetch.drain = l.drain := by
  rw [fetch]; split <;> rfl

end Fetch

/-- A pop fetches a record and then signals room, if someone waits for it. -/
theorem pop_eq (l : Link α) :
    l.pop = (l.ring.pop?.map (·.1),
      { l.fetch.release with reader := .popped (l.ring.pop?.map (·.1)) }) := by
  rcases hp : l.ring.pop? with - | ⟨item, ring⟩
  · cases hs : l.ring.isStuck <;>
      simp [pop, popSteps, runSteps, stepReader, stepTaking, signalRoom_eq, fetch, release, hp, hs]
  · cases hs : ring.isStuck <;>
      simp [pop, popSteps, runSteps, stepReader, stepTaking, signalRoom_eq, fetch, release, hp, hs]

/-! ### Passes of the drain thread -/

end Link

/-- Whether the drain thread is in a pass: from taking the lock to leaving it. -/
def Drain.isInPass : Drain → Bool
  | .locking => true
  | d => d.isLocking

namespace Link

/-- One step of the drain thread, within a pass. -/
def stepPass (l : Link α) : Option (Link α) :=
  if l.drain.isInPass then l.stepDrain else none

/-- The most steps that are left of a pass. -/
def passLeft (l : Link α) : Nat :=
  match l.drain with
  | .locking => l.overflow.length + 7
  | .flushing _ => l.overflow.length + 6
  | .looking => 5
  | .rousing => 4
  | .waking => 3
  | .grading => 2
  | .checking => 1
  | .starting | .resting | .ended => 0

/-- Lets the drain thread take the lock and go on until it has left it, while all other threads
stand still. -/
def flush (l : Link α) : Link α :=
  runSteps stepPass (l.overflow.length + 7) { l with drain := .locking }

/-- A step that brings a pass on is one of the drain thread, inside its pass. -/
theorem stepPass_eq_some (h : l.stepPass = some l') :
    l.drain.isInPass = true ∧ DrainStep l l' := by
  rw [stepPass] at h
  split at h
  · next hin => exact ⟨hin, .of_eq h⟩
  · cases h

/-- What every step of the drain thread preserves holds after a pass. -/
theorem flush_preserves {P : Link α → Prop} (hstep : ∀ m m', DrainStep m m' → P m → P m')
    (hl : P { l with drain := .locking }) : P l.flush :=
  runSteps_preserves (fun m m' h ↦ hstep m m' (stepPass_eq_some h).2) _ hl

/-- Each step brings a pass nearer to its end. -/
theorem passLeft_lt (h : l.stepPass = some l') : l'.passLeft < l.passLeft := by
  obtain ⟨hin, hstep⟩ := stepPass_eq_some h
  cases hstep with
  | start hd | finish hd | hear hd | fail hd =>
    rw [hd] at hin
    cases hin
  | move hd hover =>
    simp only [passLeft, hd, hover, List.length_cons]
    omega
  | lock hd | halt hd | skip hd | lookBusy hd | lookIdle hd | rouse hd | wake hd | clear hd
  | flag hd | checkFull hd | checkRoom hd =>
    simp only [passLeft, hd]
    omega

/-- Nothing stops the drain thread in a pass if no producer is under the lock. -/
theorem isInPass_of_stepPass_eq_none (hl : l.Locked)
    (hp : ∀ i, (l.producers i).isLocking = false) (h : l.stepPass = none) :
    l.drain.isInPass = false := by
  rw [Bool.eq_false_iff]
  intro hin
  rw [stepPass, if_pos hin, stepDrain] at h
  cases hd : l.drain with
  | starting | resting | ended => rw [hd] at hin; cases hin
  | locking =>
    have hfree := hl.holder_eq_none hp (by rw [hd]; rfl)
    simp [hd, hfree] at h
  | flushing moved =>
    simp only [hd] at h
    split at h <;> cases h
  | grading =>
    simp only [hd] at h
    split at h <;> cases h
  | looking | rousing | waking | checking => simp [hd] at h

/-- A pass that starts with the lock free leaves it free. -/
theorem flush_locked (hl : l.Locked) (hfree : l.holder = none) :
    l.flush.Locked ∧ l.flush.holder = none := by
  let P : Link α → Prop := fun m ↦ m.Locked ∧ m.producers = l.producers
  have hstep : ∀ m m' : Link α, DrainStep m m' → P m → P m' := fun m m' h ⟨hm, hprod⟩ ↦
    ⟨hm.drainStep h, by rw [← hprod]; cases h <;> simp [report]⟩
  have hstart : P { l with drain := .locking } :=
    ⟨hl.outside_drain (hl.isLocking_drain hfree) rfl rfl rfl, rfl⟩
  obtain ⟨hlocked, hprod⟩ : P l.flush := flush_preserves hstep hstart
  -- the producers stand still, outside the lock
  have hout : ∀ i, (l.flush.producers i).isLocking = false := fun i ↦ by
    rw [hprod]
    exact hl.isLocking_producer hfree i
  -- the pass is over when its steps are used up
  have hend : l.flush.stepPass = none :=
    step_runSteps_eq_none passLeft (fun m m' h ↦ hstep m m' (stepPass_eq_some h).2)
      (fun m m' h _ ↦ passLeft_lt h) hstart (Nat.le_refl _)
  have hin := isInPass_of_stepPass_eq_none hlocked hout hend
  refine ⟨hlocked, hlocked.holder_eq_none hout ?_⟩
  cases hd : l.flush.drain <;> simp_all [Drain.isInPass, Drain.isLocking]

end Link

end RingCall
