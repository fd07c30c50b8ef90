import RingCall.Link.Move
import RingCall.Proofs.Link.Lock
import RingCall.Proofs.Ring.Contents
import RingCall.Proofs.Steps

/-!
# No wakeup is lost

A consumer that is blocked and that nobody is about to wake has nothing to take
(`isEmpty_of_blocked`), whatever the order in which the threads took their steps.

The proof is an invariant, `Link.Attended`. It says who makes up for what the consumer missed, from
the moment at which it looks for the last time before it blocks:

* If the working flag is set, then somebody set it after the consumer had cleared it. That thread is
  about to signal the consumer, or has done so (`heard`).
* If the working flag is not set and there is a record, the record came in after the consumer had
  looked. The thread that stored it has yet to look at the flag, or has found it cleared (`seen`).

Only the thread that took over such a duty can give it up, and it does so by what the other clause
asks for. The lock plays no part in this. What does is that every record is followed by a look at
the flag, which is why records that are sent quietly are left out.
-/

namespace RingCall

variable {α : Type}

/-- Whether a producer has yet to look at the working flag or to set it. -/
def Producer.isRousing : Producer α → Bool
  | .looking _ | .rousing _ => true
  | _ => false

/-- Whether a producer is about to signal the consumer. -/
def Producer.isWaking : Producer α → Bool
  | .waking _ => true
  | _ => false

/-- Whether the drain thread has moved records and has yet to look at the working flag or to set
it. -/
def Drain.isRousing : Drain → Bool
  | .flushing moved => moved
  | .looking | .rousing => true
  | _ => false

/-- Whether the drain thread is about to signal the consumer. -/
def Drain.isWaking : Drain → Bool
  | .waking => true
  | _ => false

/-- Whether a producer is about to send a record without waking the consumer. -/
def Producer.isQuiet : Producer α → Bool
  | .asking (.pushQuietly _) => true
  | _ => false

/-- Whether a move sends a record without waking the consumer. -/
def Move.isQuiet : Move α → Bool
  | .request _ (.pushQuietly _) => true
  | _ => false

namespace Reader

/-- Whether the consumer is blocked. -/
def isBlocked : Reader α → Bool
  | looping _ .blocking => true
  | _ => false

/-- Whether the consumer has cleared the working flag and is about to look once more or to block. -/
def isListening : Reader α → Bool
  | looping _ (.checking _) | looping _ .blocking => true
  | _ => false

/-- A consumer that is blocked listens for the wake signal. -/
theorem isListening_of_isBlocked {r : Reader α} (h : r.isBlocked = true) :
    r.isListening = true := by
  unfold isBlocked at h
  split at h
  · rfl
  · cases h

end Reader

namespace Link

variable {l l' : Link α} {i : Nat}

/-- Somebody has yet to look at the working flag or to set it. -/
def HasRouser (l : Link α) : Prop :=
  (∃ i, (l.producers i).isRousing = true) ∨ l.drain.isRousing = true

/-- Somebody is about to signal the consumer. -/
def HasWaker (l : Link α) : Prop :=
  (∃ i, (l.producers i).isWaking = true) ∨ l.drain.isWaking = true

/-- **The invariant.** Somebody sees to what a consumer missed that is about to block or blocked. -/
structure Attended (l : Link α) : Prop where
  /-- Nobody is about to send a record quietly. -/
  loud : ∀ i, (l.producers i).isQuiet = false
  heard : l.reader.isListening = true → l.ring.isWorking = true → l.wake = .counting 0 → l.HasWaker
  seen : l.reader.isBlocked = true → l.ring.isWorking = false → l.ring.isEmpty = false → l.HasRouser

/-- A link that has just been opened is attended to. -/
theorem attended_opened (ring : Ring α) (wake room : Signal) :
    (opened ring wake room).Attended where
  loud _ := rfl
  heard := nofun
  seen := nofun

/-- A signal leaves the consumer's descriptor with a notification, if it can be notified at all. -/
theorem wake_signalWake_ne (l : Link α) (f : IoError → Report) :
    (l.signalWake f).wake ≠ .counting 0 := by
  rw [signalWake_eq]
  cases l.wake <;> simp [Signal.notify, Except.toOption]

/-- Taking a record does not concern the producers. -/
theorem TakingStep.producers_eq {stage : Taking α} {next : Taking α ⊕ Option α}
    (h : TakingStep l stage next l') : l'.producers = l.producers := by
  cases h <;> simp

/-- A handler's work does not concern the producers, and the consumer goes on afterwards. -/
theorem handle_eq_some {quits panics : Bool} (h : l.handle quits panics = some l') :
    l'.producers = l.producers ∧ l'.reader.isListening = false := by
  rw [handle] at h
  split at h
  · obtain rfl := Option.some.inj h
    cases quits <;> cases panics <;> simp [askToStop, Reader.isListening]
  · cases h

/-! ### Each thread's steps preserve it -/

namespace Attended

/-- A duty that a producer does not have is that of another one, who keeps it when the producer goes
on. -/
theorem exists_of_other {duty : Producer α → Bool} (hother : ∀ j, j ≠ i →
    l'.producers j = l.producers j) (hi : duty (l.producers i) = false)
      (h : ∃ j, duty (l.producers j) = true) :
    ∃ j, duty (l'.producers j) = true := by
  obtain ⟨j, hj⟩ := h
  have hne : j ≠ i := by
    rintro rfl
    exact absurd (hi.symm.trans hj) nofun
  exact ⟨j, by rw [hother j hne, hj]⟩

/-- A producer goes on to a stage. Whatever duty the step creates it takes over, and it gives up
none that it had. -/
theorem of_producer (h : l.Attended) {p : Producer α} (hreader : l'.reader = l.reader)
    (hprod : l'.producers = (l.setProducer i p).producers) (hdrain : l'.drain = l.drain)
    (hloud : p.isQuiet = false)
    (hheard : l'.ring.isWorking = true → l'.wake = .counting 0 → p.isWaking = true ∨
      l.ring.isWorking = true ∧ l.wake = .counting 0 ∧ (l.producers i).isWaking = false)
    (hseen : l'.ring.isWorking = false → l'.ring.isEmpty = false → p.isRousing = true ∨
      l.ring.isWorking = false ∧ l.ring.isEmpty = false ∧ (l.producers i).isRousing = false) :
    l'.Attended := by
  have hself : l'.producers i = p := by rw [hprod, producers_setProducer_self]
  have hother : ∀ j, j ≠ i → l'.producers j = l.producers j := fun j hj ↦ by
    rw [hprod, producers_setProducer_of_ne l i p hj]
  refine ⟨?_, ?_, ?_⟩
  · intro j
    by_cases hj : j = i
    · subst hj
      rw [hself]
      exact hloud
    · rw [hother j hj]
      exact h.loud j
  · intro hr hw hc
    rcases hheard hw hc with hp | ⟨hw', hc', hi⟩
    -- the producer takes the duty over, or it is another's and stays so
    · exact .inl ⟨i, hself ▸ hp⟩
    · exact (h.heard (hreader ▸ hr) hw' hc').imp (exists_of_other hother hi) fun hd ↦ hdrain ▸ hd
  · intro hr hw he
    rcases hseen hw he with hp | ⟨hw', he', hi⟩
    · exact .inl ⟨i, hself ▸ hp⟩
    · exact (h.seen (hreader ▸ hr) hw' he').imp (exists_of_other hother hi) fun hd ↦ hdrain ▸ hd

/-- The drain thread goes on to a stage. -/
theorem of_drain (h : l.Attended) (hreader : l'.reader = l.reader)
    (hprod : l'.producers = l.producers)
    (hheard : l'.ring.isWorking = true → l'.wake = .counting 0 → l'.drain.isWaking = true ∨
      l.ring.isWorking = true ∧ l.wake = .counting 0 ∧ l.drain.isWaking = false)
    (hseen : l'.ring.isWorking = false → l'.ring.isEmpty = false → l'.drain.isRousing = true ∨
      l.ring.isWorking = false ∧ l.ring.isEmpty = false ∧ l.drain.isRousing = false) :
    l'.Attended := by
  refine ⟨fun j ↦ hprod ▸ h.loud j, ?_, ?_⟩
  · intro hr hw hc
    rcases hheard hw hc with hd | ⟨hw', hc', hi⟩
    · exact .inr hd
    · rcases h.heard (hreader ▸ hr) hw' hc' with ⟨j, hj⟩ | hd
      · exact .inl ⟨j, hprod ▸ hj⟩
      · rw [hi] at hd
        cases hd
  · intro hr hw he
    rcases hseen hw he with hd | ⟨hw', he', hi⟩
    · exact .inr hd
    · rcases h.seen (hreader ▸ hr) hw' he' with ⟨j, hj⟩ | hd
      · exact .inl ⟨j, hprod ▸ hj⟩
      · rw [hi] at hd
        cases hd

/-- A producer without a duty goes on to a stage, and nothing changes that a consumer could miss. -/
theorem of_producer_idle (h : l.Attended) {p : Producer α} (hreader : l'.reader = l.reader)
    (hprod : l'.producers = (l.setProducer i p).producers) (hdrain : l'.drain = l.drain)
    (hloud : p.isQuiet = false) (hwake : l'.wake = l.wake)
    (hworking : l'.ring.isWorking = l.ring.isWorking) (hempty : l'.ring.isEmpty = l.ring.isEmpty)
    (hw : (l.producers i).isWaking = false) (hr : (l.producers i).isRousing = false) :
    l'.Attended :=
  h.of_producer hreader hprod hdrain hloud
    (fun hon hc ↦ .inr ⟨hworking ▸ hon, hwake ▸ hc, hw⟩)
    (fun hoff he ↦ .inr ⟨hworking ▸ hoff, hempty ▸ he, hr⟩)

/-- The consumer stays attended to when a producer takes a step. -/
theorem producerStep (h : l.Attended) (hstep : ProducerStep i l l') : l'.Attended := by
  cases hstep with
  | busy hp =>
    exact h.of_producer_idle (p := .idle (some .busy)) rfl rfl rfl rfl rfl rfl rfl (by rw [hp]; rfl)
      (by rw [hp]; rfl)
  | notice hp =>
    exact h.of_producer_idle (p := .rousing .notified) rfl rfl rfl rfl rfl rfl rfl (by rw [hp]; rfl)
      (by rw [hp]; rfl)
  | @miss _ record _ hp =>
    exact h.of_producer_idle (p := .flagging record) rfl rfl rfl rfl rfl rfl rfl (by rw [hp]; rfl)
      (by rw [hp]; rfl)
  | store hp _ _ hs =>
    -- there is a new record, and the producer is about to look at the flag
    have hworking := Ring.isWorking_of_push? (store?_eq_some hs).2
    exact h.of_producer (p := .looking .stored) rfl rfl rfl rfl
      (fun hon hc ↦ .inr ⟨hworking ▸ hon, hc, by rw [hp]; rfl⟩) (fun _ _ ↦ .inl rfl)
  | @storeQuietly r record ring hp _ hr =>
    have hquiet : (l.producers i).isQuiet = true := by
      rw [hp]
      cases r <;> cases hr
      rfl
    exact absurd hquiet (by rw [h.loud i]; decide)
  | @lookBusy o hp hon =>
    -- the flag is set, so that the duty is that of whoever set it
    exact h.of_producer (p := .idle (some o)) rfl rfl rfl rfl
      (fun _ hc ↦ .inr ⟨hon, hc, by rw [hp]; rfl⟩)
      (fun hoff _ ↦ absurd hoff (by simp [hon]))
  | @lookIdle o hp hoff =>
    exact h.of_producer (p := .rousing o) rfl rfl rfl rfl
      (fun hon _ ↦ absurd hon (by simp [hoff])) (fun _ _ ↦ .inl rfl)
  | @rouse o hp =>
    -- setting the flag turns the duty to look into one to signal
    exact h.of_producer (p := .waking o) rfl rfl rfl rfl (fun _ _ ↦ .inl rfl)
      (fun hoff _ ↦ absurd hoff (by simp))
  | @wake o hp =>
    refine h.of_producer (i := i) (p := .idle (some o)) (by simp) (by simp [setProducer])
      (by simp) rfl (fun _ hc ↦ absurd hc ?_) (fun hoff he ↦ .inr ⟨?_, ?_, by rw [hp]; rfl⟩)
    · exact wake_signalWake_ne l _
    · simpa using hoff
    · simpa using he
  | @flag record hp =>
    exact h.of_producer_idle (p := .parking record) rfl rfl rfl rfl rfl rfl rfl (by rw [hp]; rfl)
      (by rw [hp]; rfl)
  | @park record hp =>
    exact h.of_producer_idle (p := .checking record.ticket) rfl rfl rfl rfl rfl rfl rfl
      (by rw [hp]; rfl) (by rw [hp]; rfl)
  | @checkFull ticket hp =>
    exact h.of_producer_idle (p := .idle (some (.parked ticket))) rfl rfl rfl rfl rfl rfl rfl
      (by rw [hp]; rfl) (by rw [hp]; rfl)
  | @checkRoom ticket hp =>
    exact h.of_producer_idle (p := .nudging ticket) rfl rfl rfl rfl rfl rfl rfl (by rw [hp]; rfl)
      (by rw [hp]; rfl)
  | @nudge ticket hp =>
    exact h.of_producer_idle (i := i) (p := .idle (some (.parked ticket))) (by simp)
      (by simp [setProducer]) (by simp) rfl (by simp) (by simp) (by simp) (by rw [hp]; rfl)
        (by rw [hp]; rfl)

/-- It stays attended to when the drain thread takes a step. -/
theorem drainStep (h : l.Attended) (hstep : DrainStep l l') : l'.Attended := by
  cases hstep with
  | start hd | finish hd | lock hd | skip hd | clear hd | flag hd | checkFull hd | checkRoom hd
  | hear hd | fail hd =>
    exact h.of_drain rfl rfl (fun hon hc ↦ .inr ⟨hon, hc, by rw [hd]; rfl⟩)
      (fun hoff he ↦ .inr ⟨hoff, he, by rw [hd]; rfl⟩)
  | move hd hover hpush =>
    -- having moved a record, the drain thread is about to look at the flag
    have hworking := Ring.isWorking_of_push? hpush
    exact h.of_drain rfl rfl (fun hon hc ↦ .inr ⟨hworking ▸ hon, hc, by rw [hd]; rfl⟩)
      (fun _ _ ↦ .inl rfl)
  | halt hd =>
    exact h.of_drain rfl rfl (fun hon hc ↦ .inr ⟨hon, hc, by rw [hd]; rfl⟩) (fun _ _ ↦ .inl rfl)
  | lookBusy hd hon =>
    exact h.of_drain rfl rfl (fun _ hc ↦ .inr ⟨hon, hc, by rw [hd]; rfl⟩)
      (fun hoff _ ↦ absurd hoff (by simp [hon]))
  | lookIdle hd hoff =>
    exact h.of_drain rfl rfl (fun hon _ ↦ absurd hon (by simp [hoff])) (fun _ _ ↦ .inl rfl)
  | rouse hd =>
    exact h.of_drain rfl rfl (fun _ _ ↦ .inl rfl) (fun hoff _ ↦ absurd hoff (by simp))
  | wake hd =>
    refine h.of_drain (by simp) (by simp) (fun _ hc ↦ absurd hc ?_)
      (fun hoff he ↦ .inr ⟨?_, ?_, by rw [hd]; rfl⟩)
    · exact wake_signalWake_ne l _
    · simpa using hoff
    · simpa using he

/-- The reader goes on to a stage at which it is not about to block. -/
theorem of_reader (h : l.Attended) (hprod : l'.producers = l.producers)
    (hreader : l'.reader.isListening = false) : l'.Attended where
  loud i := hprod ▸ h.loud i
  heard hr := absurd hr (by rw [hreader]; exact nofun)
  seen hr := absurd (Reader.isListening_of_isBlocked hr) (by rw [hreader]; exact nofun)

/-- It stays attended to when it takes a step itself. -/
theorem readerStep (h : l.Attended) (hstep : ReaderStep l l') : l'.Attended := by
  cases hstep with
  | pop hr ht | popped hr ht | take hr ht | taken hr ht | drained hr ht =>
    exact h.of_reader ht.producers_eq rfl
  | start | stop | go | spot | giveUp | idle | leave | notice | resume | resumeAway | hear | fail
  | awake =>
    exact h.of_reader rfl rfl
  | clear hr =>
    -- the flag is cleared here, and whoever sets it again is about to signal
    exact ⟨h.loud, fun _ hon ↦ absurd hon (by simp), nofun⟩
  | block hr he =>
    -- the last look at the ring found nothing
    exact ⟨h.loud, fun _ ↦ h.heard (by rw [hr]; rfl), fun _ _ hne ↦
      absurd (he.symm.trans hne) nofun⟩

end Attended

/-! ### Every move preserves it -/

/-- **It stays attended to whatever is done,** but for quiet pushes. -/
theorem Attended.move (h : l.Attended) {m : Move α} (hm : m.isQuiet = false)
    (hmove : l.move? m = some l') : l'.Attended := by
  cases m with
  | request i r =>
    rw [move?] at hmove
    split at hmove
    · next hidle =>
      obtain rfl := Option.some.inj hmove
      -- a quiet push is excluded by assumption
      have hloud : (.asking r : Producer α).isQuiet = false := by
        cases r <;> first | rfl | cases hm
      obtain ⟨last, hp⟩ := Producer.exists_of_isIdle hidle
      exact h.of_producer_idle (p := .asking r) rfl rfl rfl hloud rfl rfl rfl (by rw [hp]; rfl)
        (by rw [hp]; rfl)
    · cases hmove
  | produce i => exact h.producerStep (.of_eq hmove)
  | drain => exact h.drainStep (.of_eq hmove)
  | read => exact h.readerStep (.of_eq hmove)
  | fetch =>
    rw [move?] at hmove
    split at hmove
    · exact Option.some.inj hmove ▸ h.of_reader rfl rfl
    · cases hmove
  | start policy =>
    rw [move?] at hmove
    split at hmove
    · exact Option.some.inj hmove ▸ h.of_reader rfl rfl
    · cases hmove
  | handle quits panics =>
    obtain ⟨hprod, hreader⟩ := handle_eq_some hmove
    exact h.of_reader hprod hreader
  | askToStop =>
    obtain rfl := Option.some.inj hmove
    -- the consumer that is asked to stop has a notification
    refine ⟨?_, fun _ _ hc ↦ absurd hc (wake_signalWake_ne _ _), ?_⟩
    · simpa [askToStop] using h.loud
    · simpa [askToStop, HasRouser] using h.seen
  | close =>
    obtain rfl := Option.some.inj hmove
    refine ⟨?_, ?_, ?_⟩
    · simpa [close] using h.loud
    · simpa [close, HasWaker] using h.heard
    · simpa [close, HasRouser] using h.seen

/-- **No wakeup is lost.** The ring of a consumer that is blocked with nothing to wake it is empty,
unless a thread that stored a record or found the consumer idle has yet to signal it. -/
theorem isEmpty_of_blocked {ring : Ring α} {wake room : Signal} {ms : List (Move α)}
    (hms : ∀ m ∈ ms, m.isQuiet = false) (h : (opened ring wake room).moves? ms = some l)
    (hblocked : l.reader.isBlocked = true) (hcount : l.wake = .counting 0)
    (hproducers : ∀ i, (l.producers i).isRousing = false ∧ (l.producers i).isWaking = false)
    (hdrain : l.drain.isRousing = false ∧ l.drain.isWaking = false) : l.ring.isEmpty = true := by
  have hattended : l.Attended :=
    foldlM_preserves (fun m hm _ _ hmove hl ↦ hl.move (hms m hm) hmove) h
      (attended_opened ring wake room)
  by_contra hne
  rw [Bool.not_eq_true] at hne
  -- there is a record, so that one of the two clauses names somebody with a duty
  cases hw : l.ring.isWorking with
  | true =>
    rcases hattended.heard (Reader.isListening_of_isBlocked hblocked) hw hcount with ⟨i, hi⟩ | hd
    · exact absurd ((hproducers i).2.symm.trans hi) nofun
    · exact absurd (hdrain.2.symm.trans hd) nofun
  | false =>
    rcases hattended.seen hblocked hw hne with ⟨i, hi⟩ | hd
    · exact absurd ((hproducers i).1.symm.trans hi) nofun
    · exact absurd (hdrain.1.symm.trans hd) nofun

/-- A record is sent just before the consumer blocks and stored just after. The consumer is woken,
handles the record and blocks again. -/
def blockedTwice : List (Move Nat) :=
  [.start .yield, .read, .read, .read, .read, .read, .read, .request 0 (.push 5), .read, .produce 0,
    .produce 0, .produce 0, .produce 0, .read, .read, .read, .read, .read,
    .handle false false, .read, .read, .read, .read, .read]

/-- A consumer is blocked again after it was woken once, and the ring is empty. -/
theorem isEmpty_of_blockedTwice :
    ∃ l, (opened (Ring.blank 2 (by decide)) .quiet .quiet).moves? blockedTwice = some l ∧
      l.handled = #[5] ∧ l.reader.isBlocked = true ∧ l.ring.isEmpty = true := by
  have hloud : ∀ m ∈ blockedTwice, m.isQuiet = false := by decide
  let l : Link Nat :=
    ((opened (Ring.blank 2 (by decide)) .quiet .quiet).moves? blockedTwice).get (by decide)
  have hrun : (opened (Ring.blank 2 (by decide)) .quiet .quiet).moves? blockedTwice = some l :=
    (Option.some_get _).symm
  refine ⟨l, hrun, rfl, rfl, isEmpty_of_blocked hloud hrun rfl rfl ?_ ⟨rfl, rfl⟩⟩
  intro i
  rcases i with - | i <;> exact ⟨rfl, rfl⟩

end Link

end RingCall
