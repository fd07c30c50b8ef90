import RingCall.Proofs.Link.Overflow
import RingCall.Proofs.Link.Wakeup

/-!
# Running consumers

What becomes of a request when the link has a consumer that nobody asks to end, and everybody has
settled before (`Link.Calm`). There are two cases.

* The consumer is not blocked, or the request rouses it. Then all that is in the link is handled:
  the ring and the overflow are empty when the threads have settled again
  (`Calm.request_of_rouses`).
* The consumer is blocked and stays so, since the request was to be quiet or the record was parked.
  Then nothing moves at all (`Calm.request_of_not_rouses`).

A parked record does not rouse the consumer. The drain thread would do that once it has moved the
record, which it can do once the consumer has made room.

A consumer whose idle periods end by themselves is blocked whenever it has settled, and one whose
idle periods never end is never blocked (`Calm.isBlocked_of_tires`, `Calm.isBlocked_of_tireless`).
-/

namespace RingCall

variable {α : Type}

/-- Whether the loop goes on after this stage. -/
def Stage.isStaying : Stage α → Bool
  | .clearing leaving | .checking leaving | .resuming leaving => !leaving
  | .starting | .heading _ | .draining _ _ _ | .handling _ _ _ | .idling | .blocking | .waking =>
    true

/-- Whether the consumer is not about to block. -/
def Stage.isAwake : Stage α → Bool
  | .starting | .heading _ | .draining _ _ _ | .handling _ _ _ | .idling => true
  | .clearing _ | .checking _ | .resuming _ | .blocking | .waking => false

/-- Whether a consumer's loop is running and not about to end. -/
def Reader.isStaying : Reader α → Bool
  | .looping _ stage => stage.isStaying
  | .away | .popping _ | .popped _ | .crashed => false

/-- A producer that has nothing to do owes nobody anything. -/
theorem Producer.of_isIdle {p : Producer α} (h : p.isIdle = true) :
    p.isQuiet = false ∧ p.isRousing = false ∧ p.isWaking = false := by
  cases p with
  | idle => exact ⟨rfl, rfl, rfl⟩
  | asking | looking | rousing | waking | flagging | parking | checking | nudging => cases h

namespace Waiter

/-- Whether every idle period ends by itself. -/
def givesUp : Waiter → Bool
  | sleeping interval _ _ => interval != 0
  | yielding | spinning _ _ _ => true

/-- Resetting a waiter leaves alone whether it ever gives up. -/
theorem givesUp_reset (recentWork : Nat) (waited : Bool) (w : Waiter) :
    (w.reset recentWork waited).givesUp = w.givesUp := by
  cases w <;> rfl

/-- Waiting leaves alone whether it ever gives up. -/
theorem givesUp_wait (w : Waiter) : w.wait.2.givesUp = w.givesUp := by
  cases w <;> rfl

/-- So does being exhausted. -/
theorem givesUp_of_exhausted? {w w' : Waiter} (h : w.exhausted? = some w') :
    w'.givesUp = w.givesUp := by
  obtain ⟨n, -, rfl⟩ := Option.map_eq_some_iff.1 h
  cases w <;> rfl

/-- A waiter that ever gives up can be exhausted. -/
theorem exhausted?_ne_none {w : Waiter} (h : w.givesUp = true) : w.exhausted? ≠ none := by
  rw [exhausted?, ne_eq, Option.map_eq_none_iff]
  cases w with
  | yielding | spinning => exact Option.some_ne_none _
  | sleeping interval max slept =>
    have hpos : interval ≠ 0 := bne_iff_ne.1 h
    rw [patience, if_neg hpos]
    split <;> exact Option.some_ne_none _

end Waiter

namespace Link

variable {l l' : Link α}

/-! ### Consumers that go on -/

/-- The write end is open, and a consumer is running that nobody has asked to end. -/
structure Running (l : Link α) : Prop where
  serviced : l.Serviced
  wake : l.wake.isOpen = true
  stopping : l.stopping = false
  staying : l.reader.isStaying = true

/-- The drain thread stops nobody. -/
theorem DrainStep.stopping_eq (h : DrainStep l l') : l'.stopping = l.stopping := by
  cases h <;> simp [report]

/-- The drain thread leaves the producers where they are. -/
theorem DrainStep.producers_eq (h : DrainStep l l') : l'.producers = l.producers := by
  cases h <;> simp [report]

/-- The drain thread does not close the wake signal. -/
theorem DrainStep.isOpen_wake (h : DrainStep l l') : l'.wake.isOpen = l.wake.isOpen := by
  cases h <;> simp [report]

/-- Taking a record stops nobody. -/
theorem TakingStep.stopping_eq {stage : Taking α} {next : Taking α ⊕ Option α}
    (h : TakingStep l stage next l') : l'.stopping = l.stopping := by
  cases h <;> simp

/-- No step of the consumer stops it. -/
theorem ReaderStep.stopping_eq (h : ReaderStep l l') : l'.stopping = l.stopping := by
  cases h with
  | pop _ ht | popped _ ht | take _ ht | taken _ ht | drained _ ht => exact ht.stopping_eq
  | start | stop | go | spot | giveUp | idle | clear | block | leave | notice | resume | resumeAway
  | hear | fail | awake => rfl

/-- The consumer does not close its own wake signal. -/
theorem ReaderStep.isOpen_wake (h : ReaderStep l l') : l'.wake.isOpen = l.wake.isOpen := by
  cases h with
  | pop _ ht | popped _ ht | take _ ht | taken _ ht | drained _ ht => exact congrArg _ ht.wake_eq
  | hear _ hw => exact Signal.isOpen_of_wait hw
  | start | stop | go | spot | giveUp | idle | clear | block | leave | notice | resume | resumeAway
  | fail | awake => rfl

/-- A consumer that runs goes on running while the drain thread moves records. -/
theorem Running.drainStep (h : l.Running) (hstep : DrainStep l l') : l'.Running where
  serviced := hstep.serviced h.serviced
  wake := hstep.isOpen_wake.trans h.wake
  stopping := hstep.stopping_eq.trans h.stopping
  staying := hstep.reader_eq ▸ h.staying

/-- It goes on running by steps of its own. -/
theorem Running.readerStep (h : l.Running) (hstep : ReaderStep l l') : l'.Running where
  serviced := hstep.sameWriters.serviced h.serviced hstep.isOpen_room
  wake := hstep.isOpen_wake.trans h.wake
  stopping := hstep.stopping_eq.trans h.stopping
  staying := by
    have hstaying := h.staying
    cases hstep with
    | pop hr | popped hr => rw [hr] at hstaying; cases hstaying
    | stop _ hs => rw [h.stopping] at hs; cases hs
    | fail _ hw => exact absurd hw (Signal.wait_ne_failed h.wake)
    | @clear _ leaving hr | @notice _ leaving hr => rw [hr] at hstaying; exact hstaying
    | leave hr | resumeAway hr => rw [hr] at hstaying; cases hstaying
    | start | go | take | taken | drained | spot | giveUp | idle | block | resume | hear | awake =>
      rfl

/-- It goes on running when a handler returns. -/
theorem Running.handle (h : l.Running) (hh : l.handle false false = some l') : l'.Running := by
  obtain ⟨_, _, _, _, -, rfl⟩ := handle_eq_some_of_returns hh
  exact ⟨⟨h.serviced.closing, h.serviced.drain_ne, h.serviced.room⟩, h.wake, h.stopping, rfl⟩

/-- It goes on running whatever thread takes a step. -/
theorem Running.advance (h : l.Running) (hstep : Advance l l') : l'.Running := by
  cases hstep with
  | drain hstep => exact h.drainStep hstep
  | read _ _ hstep => exact h.readerStep hstep
  | giveUp =>
    exact ⟨⟨h.serviced.closing, h.serviced.drain_ne, h.serviced.room⟩, h.wake, h.stopping, rfl⟩
  | handle _ hh => exact h.handle hh

/-- A consumer that cannot go on is blocked without a notification, or idles for good with nothing
to take. -/
theorem Running.of_still (h : l.Running) (hstill : l.advanceFreely = none) :
    ∃ w, l.reader = .looping w .blocking ∧ l.wake = .counting 0 ∨
      l.reader = .looping w .idling ∧ l.ring.isEmpty = true ∧ w.exhausted? = none := by
  rw [advanceFreely] at hstill
  split at hstill
  · cases hstill
  next hnone =>
  rw [Link.advance] at hnone
  split at hnone
  · cases hnone
  have hstaying := h.staying
  cases hr : l.reader with
  | away | popping | popped | crashed => rw [hr] at hstaying; cases hstaying
  | looping w stage =>
    refine ⟨w, ?_⟩
    cases stage with
    | starting | heading | draining | clearing | checking | resuming | waking =>
      simp [hr, stepReader, stepLoop] at hnone
    | handling => simp [Link.handle, hr] at hstill
    | idling =>
      cases he : l.ring.isEmpty with
      | false => simp [hr, he, stepReader, stepLoop] at hnone
      | true =>
        simp only [hr, he, h.stopping, Bool.not_false, Bool.and_self, if_true, idleOut,
          Option.bind_eq_none_iff] at hnone
        refine .inr ⟨rfl, rfl, ?_⟩
        cases hw : w.exhausted? with
        | none => rfl
        | some w' => exact absurd (hnone w' hw) (by simp [stepLoop])
    | blocking =>
      -- a notification would have been taken, and the descriptor is open
      simp only [hr, stepReader, stepLoop] at hnone
      refine .inl ⟨rfl, ?_⟩
      rcases hwake : l.wake with (- | n) | - | - <;> simp_all [Signal.wait]

/-! ### Links that are not in use -/

/-- Nobody is half way, and a consumer is running. -/
structure Steady (l : Link α) : Prop where
  undisturbed : l.Undisturbed
  running : l.Running
  tended : l.Tended
  idle : ∀ i, (l.producers i).isIdle = true

/-- Nothing unsettles a steady link. -/
theorem Steady.advance (h : l.Steady) (hstep : Advance l l') : l'.Steady where
  undisturbed := h.undisturbed.advance hstep
  running := h.running.advance hstep
  tended := h.tended.advance hstep
  idle i := by
    rcases hstep.sameWriters with hdrain | hsame
    · rw [hdrain.producers_eq]
      exact h.idle i
    · rw [hsame.producers_eq]
      exact h.idle i

/-- A consumer that is attended to stays so. -/
theorem Attended.advance (h : l.Attended) (hstep : Advance l l') : l'.Attended := by
  cases hstep with
  | drain hstep => exact h.drainStep hstep
  | read _ _ hstep => exact h.readerStep hstep
  | giveUp => exact h.of_reader rfl rfl
  | handle _ hh =>
    obtain ⟨hprod, hreader⟩ := handle_eq_some hh
    exact h.of_reader hprod hreader

/-- No thread can go on, and a consumer that is blocked has cleared the working flag. -/
structure Calm (l : Link α) : Prop where
  steady : l.Steady
  still : l.advanceFreely = none
  silent : l.reader.isBlocked = true → l.ring.isWorking = false

/-- Nothing goes on in a calm link. -/
theorem Calm.atRest (h : l.Calm) : l.AtRest := by
  refine atRest_of_stepDrain h.steady.undisturbed h.steady.running.serviced ?_
  have hstill := h.still
  rw [advanceFreely] at hstill
  split at hstill
  · cases hstill
  · next ha => exact stepDrain_of_advance ha

/-- A calm link is graded. -/
theorem Calm.graded (h : l.Calm) : l.Graded := by
  refine h.steady.tended.graded h.atRest.drain_eq h.atRest.room_eq h.atRest.undisturbed.outside ?_
  obtain ⟨w, ⟨hr, -⟩ | ⟨hr, -⟩⟩ := h.steady.running.of_still h.still <;> rw [hr] <;> rfl

/-- Nothing is parked beside an empty ring. -/
theorem Calm.overflow_eq_nil (h : l.Calm) (he : l.ring.isEmpty = true) : l.overflow = [] := by
  by_contra hne
  have hfull := Ring.isFull_iff.1 (h.graded.1 hne).1
  rw [Ring.isEmpty_iff.1 he] at hfull
  exact l.ring.capacity_ne_zero hfull.symm

/-- Nobody has a duty in a link in which no thread can go on. -/
theorem AtRest.no_duty (h : l.AtRest) (hidle : ∀ i, (l.producers i).isIdle = true) :
    ¬ l.HasRouser ∧ ¬ l.HasWaker := by
  refine ⟨?_, ?_⟩
  · rintro (⟨i, hi⟩ | hd)
    · exact absurd ((Producer.of_isIdle (hidle i)).2.1.symm.trans hi) nofun
    · rw [h.drain_eq] at hd; cases hd
  · rintro (⟨i, hi⟩ | hd)
    · exact absurd ((Producer.of_isIdle (hidle i)).2.2.symm.trans hi) nofun
    · rw [h.drain_eq] at hd; cases hd

/-- A consumer that is blocked, and that nobody has a duty to, has cleared the working flag and has
nothing to take. -/
theorem Attended.of_isBlocked (h : l.Attended) (hb : l.reader.isBlocked = true)
    (hwake : l.wake = .counting 0) (hrouser : ¬ l.HasRouser) (hwaker : ¬ l.HasWaker) :
    l.ring.isWorking = false ∧ l.ring.isEmpty = true := by
  have hworking : l.ring.isWorking = false := by
    rw [Bool.eq_false_iff]
    exact fun hon ↦ hwaker (h.heard (Reader.isListening_of_isBlocked hb) hon hwake)
  refine ⟨hworking, ?_⟩
  by_contra hne
  exact hrouser (h.seen hb hworking (Bool.eq_false_iff.2 hne))

/-- If somebody sees to what the consumer missed, then it handles whatever is in the link. -/
theorem Steady.settle (h : l.Steady) (ha : l.Attended) :
    l.settle.Calm ∧ l.settle.ring.isEmpty = true := by
  have hsteady : l.settle.Steady := settle_preserves (fun _ _ hstep hm ↦ hm.advance hstep) h
  have hattended : l.settle.Attended := settle_preserves (fun _ _ hstep hm ↦ hm.advance hstep) ha
  have hstill : l.settle.advanceFreely = none := advanceFreely_settle h.undisturbed
  have hrest := atRest_settle h.undisturbed h.running.serviced
  obtain ⟨hrouser, hwaker⟩ := hrest.no_duty hsteady.idle
  obtain ⟨w, ⟨hr, hwake⟩ | ⟨hr, he, -⟩⟩ := hsteady.running.of_still hstill
  · obtain ⟨hworking, he⟩ := hattended.of_isBlocked (by rw [hr]; rfl) hwake hrouser hwaker
    exact ⟨⟨hsteady, hstill, fun _ ↦ hworking⟩, he⟩
  · exact ⟨⟨hsteady, hstill, fun hb ↦ absurd hb (by rw [hr]; nofun)⟩, he⟩

/-! ### Requests -/

section Fulfil

variable (l : Link α) (r : Request α)

@[simp] theorem stopping_fulfil : (l.fulfil r).stopping = l.stopping := by
  unfold fulfil rouse park
  grind [stopping_signalWake, stopping_signalRoom]

@[simp] theorem handled_fulfil : (l.fulfil r).handled = l.handled := by
  unfold fulfil rouse park
  grind [handled_signalWake, handled_signalRoom]

@[simp] theorem reader_fulfil : (l.fulfil r).reader = l.reader := by
  unfold fulfil rouse park
  grind [reader_signalWake, reader_signalRoom]

@[simp] theorem isOpen_wake_fulfil : (l.fulfil r).wake.isOpen = l.wake.isOpen := by
  unfold fulfil rouse park
  grind [isOpen_wake_signalWake, wake_signalRoom]

end Fulfil

/-- Whether a request rouses a consumer that has cleared the working flag. -/
def rouses (l : Link α) (r : Request α) : Bool :=
  match r.sent? with
  | none => true
  | some (record, wakes) => wakes && (l.store? record.item).isSome

/-- A calm link is steady when a request has been fulfilled. -/
theorem Calm.steady_request (h : l.Calm) (i : Nat) (r : Request α) : Steady (l.request i r).2 := by
  have hfree := h.atRest.holder_eq
  obtain ⟨hundisturbed, hserviced⟩ := h.atRest.request i r
  refine ⟨hundisturbed, ⟨hserviced, ?_, ?_, ?_⟩, h.steady.tended.request hfree i r, ?_⟩
  · rw [request_eq hfree]
    exact (isOpen_wake_fulfil l r).trans h.steady.running.wake
  · rw [request_eq hfree]
    exact (stopping_fulfil l r).trans h.steady.running.stopping
  · rw [reader_request]
    exact h.steady.running.staying
  · intro j
    rw [request_eq hfree]
    by_cases hj : j = i
    · subst hj
      simp [Producer.isIdle]
    · rw [producers_setProducer_of_ne _ _ _ hj, producers_fulfil]
      exact h.steady.idle j

/-- Rousing a consumer that has cleared the flag sets the flag and signals the consumer. -/
theorem rouse_of_silent (hw : l.ring.isWorking = false) :
    l.rouse.ring.isWorking = true ∧ l.rouse.wake ≠ .counting 0 := by
  rw [rouse, if_neg (by rw [hw]; exact Bool.false_ne_true)]
  exact ⟨by simp, wake_signalWake_ne _ _⟩

/-- A request that rouses a consumer marks it working and leaves a wake signal to be taken. -/
theorem rouse_of_rouses (hw : l.ring.isWorking = false) {r : Request α} (hr : l.rouses r = true) :
    (l.fulfil r).ring.isWorking = true ∧ (l.fulfil r).wake ≠ .counting 0 := by
  rw [rouses] at hr
  rw [fulfil]
  cases hsent : r.sent? with
  | none => exact rouse_of_silent hw
  | some sent =>
    obtain ⟨record, wakes⟩ := sent
    simp only [hsent, Bool.and_eq_true] at hr
    obtain ⟨rfl, hstored⟩ := hr
    obtain ⟨stored, hs⟩ := Option.isSome_iff_exists.1 hstored
    simp only [hs, if_true]
    exact rouse_of_silent (l := { l with ring := stored })
      ((Ring.isWorking_of_push? (store?_eq_some hs).2).trans hw)

/-- A request that rouses the consumer, or finds it awake, has all records handled. -/
theorem Calm.request_of_rouses (h : l.Calm) (i : Nat) {r : Request α}
    (hr : l.reader.isBlocked = true → l.rouses r = true) :
    Calm (l.request i r).2.settle ∧ (l.request i r).2.settle.ring.isEmpty = true := by
  have hsteady := h.steady_request i r
  refine hsteady.settle ?_
  have hloud : ∀ j, ((l.request i r).2.producers j).isQuiet = false := fun j ↦
    (Producer.of_isIdle (hsteady.idle j)).1
  cases hb : l.reader.isBlocked with
  | true =>
    obtain ⟨hworking, hwake⟩ := rouse_of_rouses (h.silent hb) (hr hb)
    rw [request_eq h.atRest.holder_eq] at hloud ⊢
    exact ⟨hloud, fun _ _ hc ↦ absurd hc hwake, fun _ hoff ↦ absurd hoff (by simp [hworking])⟩
  | false =>
    have hlistening : (l.request i r).2.reader.isListening = false := by
      rw [reader_request]
      obtain ⟨w, ⟨hreader, -⟩ | ⟨hreader, -⟩⟩ := h.steady.running.of_still h.still
      · rw [hreader] at hb; cases hb
      · rw [hreader]; rfl
    refine ⟨hloud, fun hl ↦ absurd hl (by rw [hlistening]; nofun), fun hl ↦ ?_⟩
    exact absurd (Reader.isListening_of_isBlocked hl) (by rw [hlistening]; nofun)

/-- A request that does not rouse the consumer only adds a record. -/
theorem Calm.fulfil_of_not_rouses (h : l.Calm) {r : Request α} (hr : l.rouses r = false) :
    (l.fulfil r).room = l.room ∧ (l.fulfil r).wake = l.wake ∧ (l.fulfil r).reader = l.reader ∧
      (l.fulfil r).ring.isWorking = l.ring.isWorking := by
  rw [rouses] at hr
  rw [fulfil]
  cases hsent : r.sent? with
  | none => simp [hsent] at hr
  | some sent =>
    obtain ⟨record, wakes⟩ := sent
    simp only [hsent] at hr
    rcases hs : l.store? record.item with - | stored
    · -- the ring is full, so that the drain thread is not signalled either
      have hfull : l.ring.isFull = true := by
        rw [store?] at hs
        split at hs
        · exact Ring.isFull_iff.2 (Ring.push?_eq_none_iff.1 hs)
        · next hover => exact (h.graded.1 fun hnil ↦ hover (List.isEmpty_iff.2 hnil)).1
      simp [hs, park, hfull]
    · simp only [hs, Option.isSome_some, Bool.and_true] at hr
      subst hr
      simp only [hs, Bool.false_eq_true, if_false, true_and]
      exact Ring.isWorking_of_push? (store?_eq_some hs).2

/-- Nothing moves after a request that does not rouse a consumer that is blocked. -/
theorem Calm.request_of_not_rouses (h : l.Calm) (i : Nat) {r : Request α}
    (hb : l.reader.isBlocked = true) (hr : l.rouses r = false) :
    (l.request i r).2.settle = (l.request i r).2 ∧ Calm (l.request i r).2 := by
  obtain ⟨hroom, hwake, hreader, hworking⟩ := h.fulfil_of_not_rouses hr
  have hsteady := h.steady_request i r
  have hstill : (l.request i r).2.advanceFreely = none := by
    obtain ⟨w, ⟨hblocking, hcount⟩ | ⟨hidling, -⟩⟩ := h.steady.running.of_still h.still
    · rw [request_eq h.atRest.holder_eq]
      simp [setProducer, advanceFreely, Link.advance, stepDrain, stepReader, stepLoop, Link.handle,
        Signal.wait, hroom, hwake, hblocking, hcount, h.atRest.drain_eq, h.atRest.room_eq]
    · rw [hidling] at hb; cases hb
  refine ⟨runSteps_of_eq_none hstill _, hsteady, hstill, fun _ ↦ ?_⟩
  rw [request_eq h.atRest.holder_eq]
  exact hworking.trans (h.silent hb)

/-! ### How a consumer idles -/

/-- The consumer's idle periods end by themselves. -/
def Tires (l : Link α) : Prop := ∃ w stage, l.reader = .looping w stage ∧ w.givesUp = true

/-- The consumer's idle periods never end by themselves, and it is not about to block. -/
def Tireless (l : Link α) : Prop :=
  ∃ max stage, l.reader = .looping (.sleeping 0 max 0) stage ∧ stage.isAwake = true

/-- A consumer that tires goes on tiring. -/
theorem Tires.advance (h : l.Tires) (hl : l.Running) (hstep : Advance l l') : l'.Tires := by
  obtain ⟨w, stage, hreader, hw⟩ := h
  have hstaying := hl.staying
  cases hstep with
  | drain hstep => exact ⟨w, stage, hstep.reader_eq.trans hreader, hw⟩
  | giveUp _ hr _ _ hend =>
    rw [hreader] at hr
    cases hr
    exact ⟨_, _, rfl, (Waiter.givesUp_wait _).trans ((Waiter.givesUp_of_exhausted? hend).trans hw)⟩
  | handle _ hh =>
    obtain ⟨_, _, _, _, hr, rfl⟩ := handle_eq_some_of_returns hh
    rw [hreader] at hr
    cases hr
    exact ⟨_, _, rfl, hw⟩
  | read _ _ hstep =>
    cases hstep with
    | pop hr | popped hr => rw [hreader] at hr; cases hr
    -- the consumer stays as long as nobody asks it to stop
    | leave hr | resumeAway hr => rw [hr] at hstaying; cases hstaying
    | spot hr hwait | giveUp hr hwait | idle hr hwait =>
      rw [hreader] at hr
      cases hr
      have hkeeps := Waiter.givesUp_wait w
      rw [hwait, hw] at hkeeps
      exact ⟨_, _, rfl, hkeeps⟩
    | drained hr =>
      rw [hreader] at hr
      cases hr
      exact ⟨_, _, rfl, (Waiter.givesUp_reset _ _ _).trans hw⟩
    | start hr | stop hr | go hr | take hr | taken hr | clear hr | block hr | notice hr | resume hr
    | hear hr | fail hr | awake hr =>
      rw [hreader] at hr
      cases hr
      exact ⟨_, _, rfl, hw⟩

/-- A consumer that never tires goes on so. -/
theorem Tireless.advance (h : l.Tireless) (hl : l.Running) (hstep : Advance l l') :
    l'.Tireless := by
  obtain ⟨max, stage, hreader, hawake⟩ := h
  cases hstep with
  | drain hstep => exact ⟨max, stage, hstep.reader_eq.trans hreader, hawake⟩
  | giveUp _ hr _ _ hend =>
    rw [hreader] at hr
    cases hr
    cases hend
  | handle _ hh =>
    obtain ⟨_, _, _, _, hr, rfl⟩ := handle_eq_some_of_returns hh
    rw [hreader] at hr
    cases hr
    exact ⟨_, _, rfl, rfl⟩
  | read _ _ hstep =>
    cases hstep with
    | stop _ hs => rw [hl.stopping] at hs; cases hs
    | pop hr | popped hr => rw [hreader] at hr; cases hr
    | clear hr | block hr | leave hr | notice hr | resume hr | resumeAway hr | hear hr | fail hr
    | awake hr =>
      -- only a consumer that has given up gets to these stages
      rw [hreader] at hr
      cases hr
      cases hawake
    | giveUp hr hwait _ hd =>
      -- a pause of no length never uses up the time
      rw [hreader] at hr
      cases hr
      cases hwait
      rw [hl.stopping] at hd
      cases hd
    | spot hr hwait | idle hr hwait =>
      rw [hreader] at hr
      cases hr
      cases hwait
      exact ⟨_, _, rfl, rfl⟩
    | start hr | go hr | take hr | taken hr | drained hr =>
      rw [hreader] at hr
      cases hr
      exact ⟨_, _, rfl, rfl⟩

/-- A consumer that tires is blocked when the link is calm. -/
theorem Calm.isBlocked_of_tires (h : l.Calm) (ht : l.Tires) : l.reader.isBlocked = true := by
  obtain ⟨w, stage, hreader, hw⟩ := ht
  obtain ⟨w', ⟨hr, -⟩ | ⟨hr, -, hnever⟩⟩ := h.steady.running.of_still h.still
  · rw [hr]; rfl
  · rw [hreader] at hr
    cases hr
    exact absurd hnever (Waiter.exhausted?_ne_none hw)

/-- A consumer that never tires is not. -/
theorem Calm.isBlocked_of_tireless (h : l.Calm) (ht : l.Tireless) : l.reader.isBlocked = false := by
  obtain ⟨max, stage, hreader, hawake⟩ := ht
  obtain ⟨w', ⟨hr, -⟩ | ⟨hr, -⟩⟩ := h.steady.running.of_still h.still
  · rw [hreader] at hr
    cases hr
    cases hawake
  · rw [hr]; rfl

end Link

end RingCall
