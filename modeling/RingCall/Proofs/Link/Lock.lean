import RingCall.Proofs.Link.Step

/-!
# The lock of the write end

Every stage of a producer and of the drain thread is either under the lock or outside it.
`Link.Locked` says that the stages and the lock agree: whoever is at a stage under the lock holds
it, and nobody else does. In particular no two threads are under the lock at once. Each step of a
producer and of the drain thread preserves this (`Locked.producerStep`, `Locked.drainStep`),
whatever the order of the steps.
-/

namespace RingCall

variable {α : Type}

/-- Whether a producer is at a stage under the lock. -/
def Producer.isLocking : Producer α → Bool
  | .idle _ | .asking _ | .waking _ => false
  | .looking _ | .rousing _ | .flagging _ | .parking _ | .checking _ | .nudging _ => true

/-- Whether the drain thread is at a stage under the lock. -/
def Drain.isLocking : Drain → Bool
  | .starting | .locking | .resting | .ended => false
  | .flushing _ | .looking | .rousing | .waking | .grading | .checking => true

namespace Link

variable {l l' : Link α} {i : Nat}

/-! ### What signals leave alone -/

/-- A signal changes the consumer's descriptor or leaves a report. -/
theorem signalWake_eq (l : Link α) (f : IoError → Report) :
    l.signalWake f = { l with
      wake := (l.wake.notify.toOption).getD l.wake
      reports := match l.wake.notify with
        | .ok _ => l.reports
        | .error cause => l.reports.push (f cause) } := by
  unfold signalWake
  split <;> simp [report, Except.toOption, *]

/-- A signal changes the drain thread's descriptor or leaves a report. -/
theorem signalRoom_eq (l : Link α) (f : IoError → Report) :
    l.signalRoom f = { l with
      room := (l.room.notify.toOption).getD l.room
      reports := match l.room.notify with
        | .ok _ => l.reports
        | .error cause => l.reports.push (f cause) } := by
  unfold signalRoom
  split <;> simp [report, Except.toOption, *]

section Signals

variable (l : Link α) (f : IoError → Report)

/-- Waking the consumer leaves the ring alone. -/
@[simp] theorem ring_signalWake : (l.signalWake f).ring = l.ring := by
  rw [signalWake_eq]

@[simp] theorem room_signalWake : (l.signalWake f).room = l.room := by
  rw [signalWake_eq]

@[simp] theorem overflow_signalWake : (l.signalWake f).overflow = l.overflow := by
  rw [signalWake_eq]

@[simp] theorem holder_signalWake : (l.signalWake f).holder = l.holder := by
  rw [signalWake_eq]

@[simp] theorem producers_signalWake : (l.signalWake f).producers = l.producers := by
  rw [signalWake_eq]

@[simp] theorem drain_signalWake : (l.signalWake f).drain = l.drain := by
  rw [signalWake_eq]

@[simp] theorem reader_signalWake : (l.signalWake f).reader = l.reader := by
  rw [signalWake_eq]

@[simp] theorem stopping_signalWake : (l.signalWake f).stopping = l.stopping := by
  rw [signalWake_eq]

@[simp] theorem handled_signalWake : (l.signalWake f).handled = l.handled := by
  rw [signalWake_eq]

/-- Signalling room leaves the ring alone. -/
@[simp] theorem ring_signalRoom : (l.signalRoom f).ring = l.ring := by
  rw [signalRoom_eq]

@[simp] theorem wake_signalRoom : (l.signalRoom f).wake = l.wake := by
  rw [signalRoom_eq]

@[simp] theorem overflow_signalRoom : (l.signalRoom f).overflow = l.overflow := by
  rw [signalRoom_eq]

@[simp] theorem holder_signalRoom : (l.signalRoom f).holder = l.holder := by
  rw [signalRoom_eq]

@[simp] theorem producers_signalRoom : (l.signalRoom f).producers = l.producers := by
  rw [signalRoom_eq]

@[simp] theorem drain_signalRoom : (l.signalRoom f).drain = l.drain := by
  rw [signalRoom_eq]

@[simp] theorem reader_signalRoom : (l.signalRoom f).reader = l.reader := by
  rw [signalRoom_eq]

@[simp] theorem stopping_signalRoom : (l.signalRoom f).stopping = l.stopping := by
  rw [signalRoom_eq]

@[simp] theorem handled_signalRoom : (l.signalRoom f).handled = l.handled := by
  rw [signalRoom_eq]

end Signals

/-! ### What a producer's next stage leaves alone -/

section SetProducer

variable (l : Link α) (i : Nat) (p : Producer α)

@[simp] theorem producers_setProducer_self : (l.setProducer i p).producers i = p := by
  simp [setProducer]

/-- A producer leaves the others where they are. -/
theorem producers_setProducer_of_ne {j : Nat} (h : j ≠ i) :
    (l.setProducer i p).producers j = l.producers j := by
  simp [setProducer, h]

@[simp] theorem ring_setProducer : (l.setProducer i p).ring = l.ring := rfl

@[simp] theorem wake_setProducer : (l.setProducer i p).wake = l.wake := rfl

@[simp] theorem holder_setProducer : (l.setProducer i p).holder = l.holder := rfl

@[simp] theorem drain_setProducer : (l.setProducer i p).drain = l.drain := rfl

@[simp] theorem reader_setProducer : (l.setProducer i p).reader = l.reader := rfl

end SetProducer

/-! ### The agreement of stages and lock -/

/-- Exactly the threads at a stage under the lock hold it. -/
structure Locked (l : Link α) : Prop where
  producer_iff : ∀ i, (l.producers i).isLocking = true ↔ l.holder = some (.producer i)
  drain_iff : l.drain.isLocking = true ↔ l.holder = some .drain

/-- A link that has just been opened: nobody is under the lock. -/
theorem locked_opened (ring : Ring α) (wake room : Signal) : (opened ring wake room).Locked where
  producer_iff i := by simp [opened, Producer.isLocking]
  drain_iff := by simp [opened, Drain.isLocking]

namespace Locked

/-- The lock is sound as long as its holder and the threads stand where they stood. -/
theorem congr (hl : l.Locked) (hh : l'.holder = l.holder) (hp : l'.producers = l.producers)
    (hd : l'.drain = l.drain) : l'.Locked where
  producer_iff i := by rw [hp, hh]; exact hl.producer_iff i
  drain_iff := by rw [hd, hh]; exact hl.drain_iff

/-- A producer that has the lock, or takes it while it is free, goes on to a stage. -/
theorem inside (hl : l.Locked) {p : Producer α}
    (hown : l.holder = none ∨ l.holder = some (.producer i))
    (hh : l'.holder = if p.isLocking then some (.producer i) else none)
    (hp : l'.producers = (l.setProducer i p).producers) (hd : l'.drain = l.drain) :
    l'.Locked where
  -- nobody else is under the lock: it is free, or held by this very producer
  producer_iff j := by
    rw [hp, hh]
    by_cases hji : j = i
    · subst hji
      rw [producers_setProducer_self]
      cases p.isLocking <;> simp
    · rw [producers_setProducer_of_ne l i p hji, hl.producer_iff j]
      have hij : i ≠ j := fun h ↦ hji h.symm
      rcases hown with hown | hown <;> cases p.isLocking <;> simp [hown, hij]
  drain_iff := by
    rw [hd, hl.drain_iff, hh]
    rcases hown with hown | hown <;> cases p.isLocking <;> simp [hown]

/-- A producer goes from a stage outside the lock to another. -/
theorem outside (hl : l.Locked) {p : Producer α} (hold : (l.producers i).isLocking = false)
    (hnew : p.isLocking = false) (hh : l'.holder = l.holder)
    (hp : l'.producers = (l.setProducer i p).producers) (hd : l'.drain = l.drain) :
    l'.Locked where
  producer_iff j := by
    rw [hp, hh]
    by_cases hji : j = i
    · subst hji
      rw [producers_setProducer_self, hnew, ← hold]
      exact hl.producer_iff j
    · rw [producers_setProducer_of_ne l i p hji]
      exact hl.producer_iff j
  drain_iff := by rw [hd, hh]; exact hl.drain_iff

/-- The drain thread, which has the lock or takes it while it is free, goes on to a stage. -/
theorem inside_drain (hl : l.Locked) (hown : l.holder = none ∨ l.holder = some .drain)
    (hh : l'.holder = if l'.drain.isLocking then some .drain else none)
    (hp : l'.producers = l.producers) : l'.Locked where
  producer_iff i := by
    rw [hp, hl.producer_iff i, hh]
    rcases hown with hown | hown <;> cases l'.drain.isLocking <;> simp [hown]
  drain_iff := by
    rw [hh]
    cases l'.drain.isLocking <;> simp

/-- The drain thread goes from a stage outside the lock to another. -/
theorem outside_drain (hl : l.Locked) (hold : l.drain.isLocking = false)
    (hnew : l'.drain.isLocking = false) (hh : l'.holder = l.holder)
    (hp : l'.producers = l.producers) : l'.Locked where
  producer_iff i := by rw [hp, hh]; exact hl.producer_iff i
  drain_iff := by rw [hnew, hh, ← hold]; exact hl.drain_iff

/-- No producer is inside while nobody holds the lock. -/
theorem isLocking_producer (hl : l.Locked) (hfree : l.holder = none) (i : Nat) :
    (l.producers i).isLocking = false := by
  rw [Bool.eq_false_iff, ne_eq, hl.producer_iff i, hfree]
  exact nofun

/-- Nor is the drain thread. -/
theorem isLocking_drain (hl : l.Locked) (hfree : l.holder = none) : l.drain.isLocking = false := by
  rw [Bool.eq_false_iff, ne_eq, hl.drain_iff, hfree]
  exact nofun

/-- Nobody holds the lock if no thread is at a stage under it. -/
theorem holder_eq_none (hl : l.Locked) (hp : ∀ i, (l.producers i).isLocking = false)
    (hd : l.drain.isLocking = false) : l.holder = none := by
  rcases hh : l.holder with - | ⟨i⟩ | -
  · rfl
  · have hlock := (hl.producer_iff i).2 hh
    rw [hp i] at hlock
    cases hlock
  · have hlock := hl.drain_iff.2 hh
    rw [hd] at hlock
    cases hlock

/-! ### Each thread's steps preserve it -/

/-- A step of a producer keeps the lock sound. -/
theorem producerStep (hl : l.Locked) (h : ProducerStep i l l') : l'.Locked := by
  -- a producer that is inside has the lock already
  have hown : (l.producers i).isLocking = true → l.holder = some (.producer i) :=
    (hl.producer_iff i).1
  cases h with
  | busy hp hfree =>
    exact hl.inside (p := .idle (some .busy)) (.inl hfree) hfree rfl rfl
  | notice hp hfree =>
    exact hl.inside (p := .rousing .notified) (.inl hfree) rfl rfl rfl
  | @miss _ record _ hp hfree =>
    exact hl.inside (p := .flagging record) (.inl hfree) rfl rfl rfl
  | store hp hfree =>
    exact hl.inside (p := .looking .stored) (.inl hfree) rfl rfl rfl
  | storeQuietly hp hfree =>
    exact hl.inside (p := .idle (some .stored)) (.inl hfree) hfree rfl rfl
  | @lookBusy o hp =>
    exact hl.inside (p := .idle (some o)) (.inr (hown (by rw [hp]; rfl))) rfl rfl rfl
  | @lookIdle o hp =>
    have hheld := hown (by rw [hp]; rfl)
    exact hl.inside (p := .rousing o) (.inr hheld) hheld rfl rfl
  | @rouse o hp =>
    exact hl.inside (p := .waking o) (.inr (hown (by rw [hp]; rfl))) rfl rfl rfl
  | @wake o hp =>
    exact hl.outside (p := .idle (some o)) (by rw [hp]; rfl) rfl (by simp) (by simp [setProducer])
      (by simp)
  | @flag record hp =>
    have hheld := hown (by rw [hp]; rfl)
    exact hl.inside (p := .parking record) (.inr hheld) hheld rfl rfl
  | @park record hp =>
    have hheld := hown (by rw [hp]; rfl)
    exact hl.inside (p := .checking record.ticket) (.inr hheld) hheld rfl rfl
  | @checkFull ticket hp =>
    exact hl.inside (p := .idle (some (.parked ticket))) (.inr (hown (by rw [hp]; rfl))) rfl rfl rfl
  | @checkRoom ticket hp =>
    have hheld := hown (by rw [hp]; rfl)
    exact hl.inside (p := .nudging ticket) (.inr hheld) hheld rfl rfl
  | @nudge ticket hp =>
    exact hl.inside (p := .idle (some (.parked ticket))) (.inr (hown (by rw [hp]; rfl))) rfl
      (by simp [setProducer]) (by simp)

/-- A step of the drain thread keeps the lock sound. -/
theorem drainStep (hl : l.Locked) (h : DrainStep l l') : l'.Locked := by
  have hown : l.drain.isLocking = true → l.holder = some .drain := hl.drain_iff.1
  cases h with
  | start hd | finish hd | hear hd | fail hd =>
    exact hl.outside_drain (by rw [hd]; rfl) rfl rfl rfl
  | lock hd hfree => exact hl.inside_drain (.inl hfree) rfl rfl
  | move hd | halt hd | skip hd | lookBusy hd | lookIdle hd | rouse hd | flag hd =>
    have hheld := hown (by rw [hd]; rfl)
    exact hl.inside_drain (.inr hheld) hheld rfl
  | wake hd =>
    have hheld := hown (by rw [hd]; rfl)
    exact hl.inside_drain (.inr hheld) (by simpa [Drain.isLocking] using hheld) (by simp)
  | clear hd | checkFull hd | checkRoom hd =>
    exact hl.inside_drain (.inr (hown (by rw [hd]; rfl))) rfl rfl

end Locked

end Link

end RingCall
