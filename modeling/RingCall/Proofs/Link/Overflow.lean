import RingCall.Proofs.Link.Rest

/-!
# No parked record sits beside a free slot

A drain thread that rests, and that nobody is about to wake, has nothing to do: if records are
parked then the ring is full and the stuck flag is set, and if none are parked the flag is clear
(`graded_of_resting`). This holds whatever the order in which the threads took their steps.

The proof is an invariant, `Link.Tended`. The reader works outside the lock, so it may make room at
any moment, and it wakes the drain thread only if it finds the stuck flag set. Somebody else has to
make up for what it does not see:

* While records are parked the flag is set, unless the reader has just cleared it and is about to
  signal (`marked`). The drain thread sets it once more before it looks at the ring for the last
  time.
* While records are parked the ring is full, unless whoever could have noticed that it is not has
  yet to look: the producer that parked a record, or the reader that has made room (`full`).

A reader that made room and finds the flag clear may therefore leave: by the first clause nothing is
parked. Both clauses speak only of a drain thread without a notification, since any notification
makes it begin a new pass.
-/

namespace RingCall

variable {α : Type}

/-- Whether a producer has set the stuck flag for a record that it is about to append. -/
def Producer.isAppending : Producer α → Bool
  | .parking _ => true
  | _ => false

/-- Whether a producer has parked a record and has yet to look at the ring or to signal the drain
thread. -/
def Producer.isChecking : Producer α → Bool
  | .checking _ | .nudging _ => true
  | _ => false

/-- Whether the drain thread has set the stuck flag in this pass, or rests. -/
def Drain.isSettling : Drain → Bool
  | .checking | .resting => true
  | _ => false

/-- Whether a reader has tried to take a record and has yet to see to the stuck flag. -/
def Taking.isReleasing : Taking α → Bool
  | .taking => false
  | .looking _ | .clearing _ | .nudging _ => true

/-- Whether a reader has cleared the stuck flag and is about to signal the drain thread. -/
def Taking.isNudging : Taking α → Bool
  | .nudging _ => true
  | _ => false

namespace Reader

/-- How far the reader is with taking a record, if it is taking one. -/
def taking? : Reader α → Option (Taking α)
  | popping stage => some stage
  | looping _ (.draining stage _ _) => some stage
  | _ => none

/-- Whether the reader is between a try to take a record and the end of seeing to the stuck flag. -/
def isReleasing (r : Reader α) : Bool := r.taking?.any Taking.isReleasing

/-- Whether the reader is about to signal the drain thread. -/
def isNudging (r : Reader α) : Bool := r.taking?.any Taking.isNudging

end Reader

namespace Link

variable {l l' : Link α} {i : Nat}

/-- Records are parked only beside a full ring, and the stuck flag tells whether there are any. -/
def Graded (l : Link α) : Prop :=
  (l.overflow ≠ [] → l.ring.isFull = true ∧ l.ring.isStuck = true) ∧
    (l.overflow = [] → l.ring.isStuck = false)

/-- **The invariant.** Somebody sees to the records that are parked. -/
structure Tended (l : Link α) : Prop where
  locked : l.Locked
  /-- Records that are parked, or about to be, are marked by the stuck flag. -/
  marked : l.drain.isSettling = true → l.room = .counting 0 →
    (l.overflow ≠ [] ∨ ∃ i, (l.producers i).isAppending = true) →
      l.ring.isStuck = true ∨ l.reader.isNudging = true
  /-- The drain thread looks at the ring a last time only if records are parked. -/
  kept : l.drain = .checking → l.overflow ≠ []
  full : l.drain = .resting → l.room = .counting 0 → l.overflow ≠ [] →
    l.ring.isFull = true ∨ (∃ i, (l.producers i).isChecking = true) ∨ l.reader.isReleasing = true
  clear : l.drain = .resting → l.overflow = [] → l.ring.isStuck = true →
    ∃ i, (l.producers i).isAppending = true

/-- Nobody has to tend to a link that has just been opened. -/
theorem tended_opened (ring : Ring α) (wake room : Signal) : (opened ring wake room).Tended where
  locked := locked_opened ring wake room
  marked := nofun
  kept := nofun
  full := nofun
  clear := nofun

/-- A signal leaves the drain thread's descriptor with a notification, if it can be notified at
all. -/
theorem room_signalRoom_ne (l : Link α) (f : IoError → Report) :
    (l.signalRoom f).room ≠ .counting 0 := by
  rw [signalRoom_eq]
  cases l.room <;> simp [Signal.notify, Except.toOption]

/-- A duty of some producer is another's than the one that goes on, and stays so. -/
theorem exists_setProducer {duty : Producer α → Bool} {p : Producer α}
    (hp : duty (l.producers i) = true → duty p = true) (h : ∃ j, duty (l.producers j) = true) :
    ∃ j, duty ((l.setProducer i p).producers j) = true := by
  obtain ⟨j, hj⟩ := h
  by_cases hji : j = i
  · subst hji
    exact ⟨j, by rw [producers_setProducer_self]; exact hp hj⟩
  · exact ⟨j, by rw [producers_setProducer_of_ne l i p hji]; exact hj⟩

/-- A duty of some producer is one that it had before, if the producer that changes has none. -/
theorem exists_of_exists_setProducer {duty : Producer α → Bool} {p : Producer α}
    (hp : duty p = true → duty (l.producers i) = true)
    (h : ∃ j, duty ((l.setProducer i p).producers j) = true) :
    ∃ j, duty (l.producers j) = true := by
  obtain ⟨j, hj⟩ := h
  by_cases hji : j = i
  · subst hji
    rw [producers_setProducer_self] at hj
    exact ⟨j, hp hj⟩
  · rw [producers_setProducer_of_ne l i p hji] at hj
    exact ⟨j, hj⟩

/-! ### Each thread's steps preserve it -/

namespace Tended

/-- A producer goes on to a stage without parking a record, and no duty of its ends. -/
theorem of_producer (h : l.Tended) {p : Producer α} (hlocked : l'.Locked)
    (hprod : l'.producers = (l.setProducer i p).producers) (hdrain : l'.drain = l.drain)
    (hroom : l'.room = l.room) (hreader : l'.reader = l.reader) (hover : l'.overflow = l.overflow)
    (hstuck : l'.ring.isStuck = l.ring.isStuck)
    (hfull : l.overflow ≠ [] → l.ring.isFull = true → l'.ring.isFull = true)
    (happ : p.isAppending = (l.producers i).isAppending)
    (hcheck : (l.producers i).isChecking = true → p.isChecking = true) : l'.Tended where
  locked := hlocked
  marked hd hr hpark := by
    rw [hdrain] at hd
    rw [hroom] at hr
    rw [hover, hprod] at hpark
    rw [hstuck, hreader]
    exact h.marked hd hr (hpark.imp_right (exists_of_exists_setProducer fun hp ↦ happ ▸ hp))
  kept hd := by
    rw [hover]
    exact h.kept (hdrain ▸ hd)
  full hd hr hpark := by
    rw [hover] at hpark
    rw [hprod, hreader]
    exact (h.full (hdrain ▸ hd) (hroom ▸ hr) hpark).imp (hfull hpark)
      (Or.imp_left (exists_setProducer hcheck))
  clear hd hnil hs := by
    rw [hprod]
    exact exists_setProducer (fun hp ↦ happ ▸ hp)
      (h.clear (hdrain ▸ hd) (hover ▸ hnil) (hstuck ▸ hs))

/-- Somebody goes on tending to parked records when a producer takes a step. -/
theorem producerStep (h : l.Tended) (hstep : ProducerStep i l l') : l'.Tended := by
  have hlocked : l'.Locked := h.locked.producerStep hstep
  cases hstep with
  | busy hp =>
    exact h.of_producer (p := .idle (some .busy)) hlocked rfl rfl rfl rfl rfl rfl (fun _ ↦ id)
      (by rw [hp]; rfl) (by rw [hp]; rintro ⟨⟩)
  | notice hp =>
    exact h.of_producer (p := .rousing .notified) hlocked rfl rfl rfl rfl rfl rfl (fun _ ↦ id)
      (by rw [hp]; rfl) (by rw [hp]; rintro ⟨⟩)
  | @miss _ record _ hp =>
    exact h.of_producer (p := .flagging record) hlocked rfl rfl rfl rfl rfl rfl (fun _ ↦ id)
      (by rw [hp]; rfl) (by rw [hp]; rintro ⟨⟩)
  | store hp _ _ hs =>
    -- a record is stored directly only if nothing is parked
    obtain ⟨hnil, hpush⟩ := store?_eq_some hs
    exact h.of_producer (p := .looking .stored) hlocked rfl rfl rfl rfl rfl
      (Ring.isStuck_of_push? hpush) (fun hne ↦ absurd hnil hne) (by rw [hp]; rfl)
        (by rw [hp]; rintro ⟨⟩)
  | storeQuietly hp _ _ hs =>
    obtain ⟨hnil, hpush⟩ := store?_eq_some hs
    exact h.of_producer (p := .idle (some .stored)) hlocked rfl rfl rfl rfl rfl
      (Ring.isStuck_of_push? hpush) (fun hne ↦ absurd hnil hne) (by rw [hp]; rfl)
        (by rw [hp]; rintro ⟨⟩)
  | @lookBusy o hp =>
    exact h.of_producer (p := .idle (some o)) hlocked rfl rfl rfl rfl rfl rfl (fun _ ↦ id)
      (by rw [hp]; rfl) (by rw [hp]; rintro ⟨⟩)
  | @lookIdle o hp =>
    exact h.of_producer (p := .rousing o) hlocked rfl rfl rfl rfl rfl rfl (fun _ ↦ id)
      (by rw [hp]; rfl) (by rw [hp]; rintro ⟨⟩)
  | @rouse o hp =>
    exact h.of_producer (p := .waking o) hlocked rfl rfl rfl rfl rfl rfl (fun _ ↦ id)
      (by rw [hp]; rfl) (by rw [hp]; rintro ⟨⟩)
  | @wake o hp =>
    exact h.of_producer (i := i) (p := .idle (some o)) hlocked (by simp [setProducer]) (by simp)
      (by simp [setProducer]) (by simp) (by simp [setProducer]) (by simp) (by simp)
      (by rw [hp]; rfl) (by rw [hp]; rintro ⟨⟩)
  | @flag record hp =>
    refine ⟨hlocked, fun _ _ _ ↦ .inl (by simp), h.kept, ?_, fun _ _ _ ↦ ⟨i, by simp; rfl⟩⟩
    intro hd hr hpark
    exact (h.full hd hr hpark).imp_right (Or.imp_left (exists_setProducer (by rw [hp]; rintro ⟨⟩)))
  | @park record hp =>
    -- the record becomes the duty of the producer that appends it
    refine ⟨hlocked, ?_, fun _ ↦ by simp [setProducer], fun _ _ _ ↦ .inr (.inl ⟨i, by simp; rfl⟩),
      fun _ hnil ↦ absurd hnil (by simp [setProducer])⟩
    intro hd hr _
    exact h.marked hd hr (.inr ⟨i, by rw [hp]; rfl⟩)
  | @checkFull ticket hp hfull =>
    refine ⟨hlocked, ?_, h.kept, fun _ _ _ ↦ .inl hfull, ?_⟩
    · intro hd hr hpark
      exact h.marked hd hr (hpark.imp_right
        (exists_of_exists_setProducer (p := .idle (some (.parked ticket))) (by rintro ⟨⟩)))
    · intro hd hnil hs
      exact exists_setProducer (by rw [hp]; rintro ⟨⟩) (h.clear hd hnil hs)
  | @checkRoom ticket hp =>
    exact h.of_producer (p := .nudging ticket) hlocked rfl rfl rfl rfl rfl rfl (fun _ ↦ id)
      (by rw [hp]; rfl) (fun _ ↦ rfl)
  | @nudge ticket hp =>
    have hne := room_signalRoom_ne l .drainNotWoken
    refine ⟨hlocked, fun _ hr ↦ absurd hr hne, fun hd ↦ ?_, fun _ hr ↦ absurd hr hne, ?_⟩
    · simpa [setProducer] using h.kept (by simpa using hd)
    · intro hd hnil hs
      have happ := h.clear (by simpa using hd) (by simpa [setProducer] using hnil)
        (by simpa using hs)
      simpa [setProducer] using exists_setProducer (p := .idle (some (.parked ticket))) (i := i)
        (by rw [hp]; rintro ⟨⟩) happ

/-- Somebody goes on tending to them when the drain thread takes a step. -/
theorem drainStep (h : l.Tended) (hstep : DrainStep l l') : l'.Tended := by
  have hlocked : l'.Locked := h.locked.drainStep hstep
  cases hstep with
  | start | finish | lock | move | halt | skip | lookBusy | lookIdle | rouse | wake
      | checkRoom | hear
  | fail =>
    -- the drain thread is, or will be, in a pass
    exact ⟨hlocked, nofun, nofun, nofun, nofun⟩
  | clear hd hnil =>
    -- nobody else is under the lock, so that no record is about to be parked
    have hout : ∀ j, (l.producers j).isAppending = false := by
      intro j
      have hj : (l.producers j).isLocking = false :=
        hlocked.isLocking_producer rfl j
      cases hp : l.producers j <;> rw [hp] at hj <;> first | rfl | cases hj
    refine ⟨hlocked, ?_, nofun, fun _ _ hne ↦ absurd hnil hne, fun _ _ hs ↦ absurd hs (by simp)⟩
    rintro - - (hne | ⟨j, hj⟩)
    · exact absurd hnil hne
    · exact absurd hj (by rw [hout j]; nofun)
  | flag hd hne => exact ⟨hlocked, fun _ _ _ ↦ .inl (by simp), fun _ ↦ hne, nofun, nofun⟩
  | checkFull hd hfull =>
    exact ⟨hlocked, fun _ ↦ h.marked (by rw [hd]; rfl), nofun, fun _ _ _ ↦ .inl hfull,
      fun _ hnil ↦ absurd hnil (h.kept hd)⟩

/-- The reader goes on without a change that concerns parked records. -/
theorem of_reader (h : l.Tended) (hheld : l'.holder = l.holder) (hprod : l'.producers = l.producers)
    (hdrain : l'.drain = l.drain) (hroom : l'.room = l.room) (hover : l'.overflow = l.overflow)
    (hstuck : l'.ring.isStuck = l.ring.isStuck) (hfull : l'.ring.isFull = l.ring.isFull)
    (hnudge : l.reader.isNudging = true → l'.reader.isNudging = true)
    (hrelease : l.reader.isReleasing = true → l'.reader.isReleasing = true) : l'.Tended where
  locked := h.locked.congr hheld hprod hdrain
  marked hd hr hpark := by
    rw [hstuck]
    exact (h.marked (hdrain ▸ hd) (hroom ▸ hr) (by rwa [hover, hprod] at hpark)).imp_right hnudge
  kept hd := by
    rw [hover]
    exact h.kept (hdrain ▸ hd)
  full hd hr hpark := by
    rw [hfull, hprod]
    exact (h.full (hdrain ▸ hd) (hroom ▸ hr) (hover ▸ hpark)).imp_right (Or.imp_right hrelease)
  clear hd hnil hs := by
    rw [hprod]
    exact h.clear (hdrain ▸ hd) (hover ▸ hnil) (hstuck ▸ hs)

/-- A signal to the drain thread settles whatever concerned parked records. -/
theorem of_signal (h : l.Tended) (hheld : l'.holder = l.holder) (hprod : l'.producers = l.producers)
    (hdrain : l'.drain = l.drain) (hroom : l'.room ≠ .counting 0) (hover : l'.overflow = l.overflow)
    (hstuck : l'.ring.isStuck = l.ring.isStuck) : l'.Tended where
  locked := h.locked.congr hheld hprod hdrain
  marked _ hr := absurd hr hroom
  kept hd := by
    rw [hover]
    exact h.kept (hdrain ▸ hd)
  full _ hr := absurd hr hroom
  clear hd hnil hs := by
    rw [hprod]
    exact h.clear (hdrain ▸ hd) (hover ▸ hnil) (hstuck ▸ hs)

/-- A reader that is done with the stuck flag, and found it clear, leaves nothing behind: it is not
about to signal, so that the flag would be set if anything was parked. -/
theorem eq_nil_of_clear (h : l.Tended) (hd : l.drain = .resting) (hr : l.room = .counting 0)
    (hs : l.ring.isStuck = false) (hn : l.reader.isNudging = false) : l.overflow = [] := by
  by_contra hne
  rcases h.marked (by rw [hd]; rfl) hr (.inl hne) with hs' | hn'
  · exact absurd (hs.symm.trans hs') nofun
  · exact absurd (hn.symm.trans hn') nofun

/-- One step of taking a record. `next` is the reader after it. -/
theorem takingStep (h : l.Tended) {stage : Taking α} {got : Taking α ⊕ Option α} {next : Reader α}
    (hr : l.reader.taking? = some stage) (ht : TakingStep l stage got l')
    (hnext : next.taking? = got.getLeft?) : Tended { l' with reader := next } := by
  have hstage : l.reader.isNudging = stage.isNudging := by simp [Reader.isNudging, hr]
  cases ht with
  | take hpop =>
    -- whoever makes room has yet to look at the stuck flag
    have hstuck := Ring.isStuck_of_pop? hpop
    refine ⟨h.locked.congr rfl rfl rfl, ?_, h.kept, ?_, ?_⟩
    · intro hd hc hpark
      refine (h.marked hd hc hpark).imp (fun hs ↦ hstuck.trans hs) fun hn ↦ ?_
      rw [hstage] at hn
      cases hn
    · intro _ _ _
      exact .inr (.inr (by simp [Reader.isReleasing, hnext, Taking.isReleasing]))
    · intro hd hnil hs
      exact h.clear hd hnil (hstuck ▸ hs)
  | miss | lookStuck =>
    exact h.of_reader rfl rfl rfl rfl rfl rfl rfl (by rw [hstage]; nofun)
      (fun _ ↦ by simp [Reader.isReleasing, hnext, Taking.isReleasing])
  | lookFree hs =>
    refine ⟨h.locked.congr rfl rfl rfl, ?_, h.kept, ?_, h.clear⟩
    · intro hd hc hpark
      refine (h.marked hd hc hpark).imp_right fun hn ↦ ?_
      rw [hstage] at hn
      cases hn
    · intro hd hc hne
      exact absurd (h.eq_nil_of_clear hd hc hs (by rw [hstage]; rfl)) hne
  | clear hs =>
    -- the flag is cleared, and the signal is still to come
    refine ⟨h.locked.congr rfl rfl rfl, fun _ _ _ ↦ .inr ?_, h.kept, fun _ _ _ ↦ .inr (.inr ?_),
      fun _ _ hs' ↦ absurd hs' (by simp)⟩
    · simp [Reader.isNudging, hnext, Taking.isNudging]
    · simp [Reader.isReleasing, hnext, Taking.isReleasing]
  | clearLate hs =>
    have hn : l.reader.isNudging = false := by rw [hstage]; rfl
    refine ⟨h.locked.congr rfl rfl rfl, ?_, h.kept, ?_, fun _ _ hs' ↦ absurd hs' (by simp)⟩
    · intro hd hc hpark
      rcases h.marked hd hc hpark with hs' | hn'
      · exact absurd (hs.symm.trans hs') nofun
      · exact absurd (hn.symm.trans hn') nofun
    · intro hd hc hne
      exact absurd (h.eq_nil_of_clear hd hc hs hn) hne
  | nudge =>
    exact h.of_signal (by simp) (by simp) (by simp) (room_signalRoom_ne l _) (by simp) (by simp)

/-- Somebody goes on tending to them when the consumer takes a step. -/
theorem readerStep (h : l.Tended) (hstep : ReaderStep l l') : l'.Tended := by
  cases hstep with
  | pop hr ht | popped hr ht | take hr ht | taken hr ht | drained hr ht =>
    exact h.takingStep (by rw [hr]; rfl) ht rfl
  | start hr | stop hr | go hr | spot hr | giveUp hr | idle hr | clear hr | block hr | leave hr
  | notice hr | resume hr | resumeAway hr | hear hr | fail hr | awake hr =>
    exact h.of_reader rfl rfl rfl rfl rfl rfl rfl (by rw [hr]; nofun) (by rw [hr]; nofun)

/-- Somebody goes on tending to them when a handler returns. -/
theorem handle {quits panics : Bool} (h : l.Tended) (hh : l.handle quits panics = some l') :
    l'.Tended := by
  rw [Link.handle] at hh
  split at hh
  · next hr =>
    obtain rfl := Option.some.inj hh
    cases quits <;> cases panics <;>
      exact h.of_reader (by simp [askToStop]) (by simp [askToStop]) (by simp [askToStop])
        (by simp [askToStop]) (by simp [askToStop]) (by simp [askToStop]) (by simp [askToStop])
        (by rw [hr]; rintro ⟨⟩) (by rw [hr]; rintro ⟨⟩)
  · cases hh

/-! ### Every move preserves it -/

/-- **Parked records are tended to whatever is done.** -/
theorem move (h : l.Tended) {m : Move α} (hmove : l.move? m = some l') : l'.Tended := by
  cases m with
  | request i r =>
    rw [move?] at hmove
    split at hmove
    · next hidle =>
      obtain rfl := Option.some.inj hmove
      obtain ⟨last, hp⟩ := Producer.exists_of_isIdle hidle
      exact h.of_producer (p := .asking r)
        (h.locked.outside (by rw [hp]; rfl) rfl rfl rfl rfl) rfl rfl rfl rfl rfl rfl (fun _ ↦ id)
        (by rw [hp]; rfl) (by rw [hp]; nofun)
    · cases hmove
  | produce i => exact h.producerStep (.of_eq hmove)
  | drain => exact h.drainStep (.of_eq hmove)
  | read => exact h.readerStep (.of_eq hmove)
  | handle quits panics => exact h.handle hmove
  | fetch | start policy =>
    rw [move?] at hmove
    split at hmove
    · next hidle =>
      obtain rfl := Option.some.inj hmove
      -- an idle reader is not about to signal that there is room
      have hr : l.reader.taking? = none := by
        cases hr : l.reader <;> rw [hr] at hidle <;> first | rfl | cases hidle
      exact h.of_reader rfl rfl rfl rfl rfl rfl rfl (by simp [Reader.isNudging, hr])
        (by simp [Reader.isReleasing, hr])
    · cases hmove
  | askToStop =>
    obtain rfl := Option.some.inj hmove
    exact h.of_reader (by simp [askToStop]) (by simp [askToStop]) (by simp [askToStop])
      (by simp [askToStop]) (by simp [askToStop]) (by simp [askToStop]) (by simp [askToStop])
      (by simp [askToStop]) (by simp [askToStop])
  | close =>
    obtain rfl := Option.some.inj hmove
    exact h.of_signal (by simp [close]) (by simp [close]) (by simp [close]) (room_signalRoom_ne _ _)
      (by simp [close]) (by simp [close])

/-- They are tended to while the other threads go on. -/
theorem advance (h : l.Tended) (hstep : Advance l l') : l'.Tended := by
  cases hstep with
  | drain hstep => exact h.drainStep hstep
  | read _ _ hstep => exact h.readerStep hstep
  | giveUp _ hr =>
    exact h.of_reader rfl rfl rfl rfl rfl rfl rfl (by rw [hr]; nofun) (by rw [hr]; nofun)
  | handle _ hh => exact h.handle hh

/-- What a drain thread that rests has left behind, when nobody is at work on parked records. -/
theorem graded (h : l.Tended) (hd : l.drain = .resting) (hc : l.room = .counting 0)
    (hp : ∀ i, (l.producers i).isLocking = false) (hr : l.reader.isReleasing = false) :
    l.Graded := by
  have hidle : ∀ i, (l.producers i).isAppending = false ∧ (l.producers i).isChecking = false := by
    intro i
    have hi := hp i
    cases hpi : l.producers i <;> rw [hpi] at hi <;> first | exact ⟨rfl, rfl⟩ | cases hi
  have hnudge : l.reader.isNudging = false := by
    cases ht : l.reader.taking? with
    | none => simp [Reader.isNudging, ht]
    | some stage =>
      cases stage <;> simp_all [Reader.isNudging, Reader.isReleasing, Taking.isReleasing,
        Taking.isNudging]
  refine ⟨fun hne ↦ ⟨?_, ?_⟩, fun hnil ↦ ?_⟩
  · rcases h.full hd hc hne with hf | ⟨i, hi⟩ | hrel
    · exact hf
    · exact absurd ((hidle i).2.symm.trans hi) nofun
    · exact absurd (hr.symm.trans hrel) nofun
  · rcases h.marked (by rw [hd]; rfl) hc (.inl hne) with hs | hn
    · exact hs
    · exact absurd (hnudge.symm.trans hn) nofun
  · rw [Bool.eq_false_iff]
    intro hs
    obtain ⟨i, hi⟩ := h.clear hd hnil hs
    exact absurd ((hidle i).1.symm.trans hi) nofun

end Tended

/-! ### One errand after the other -/

/-- They are tended to after a request. -/
theorem Tended.request (h : l.Tended) (hfree : l.holder = none) (i : Nat) (r : Request α) :
    Tended (l.request i r).2 := by
  have hout := h.locked.isLocking_producer hfree i
  refine request_preserves (fun _ _ hstep hm ↦ hm.producerStep hstep) r ?_
  have happ : (l.producers i).isAppending = false ∧ (l.producers i).isChecking = false := by
    cases hp : l.producers i <;> rw [hp] at hout <;> first | exact ⟨rfl, rfl⟩ | cases hout
  exact h.of_producer (p := .asking r) (h.locked.outside hout rfl rfl rfl rfl) rfl rfl
    rfl rfl rfl rfl (fun _ ↦ id) happ.1.symm (fun hc ↦ absurd (happ.2.symm.trans hc) nofun)

/-- They are tended to after a pop. -/
theorem Tended.pop (h : l.Tended) (hr : l.reader.isIdle = true) : Tended l.pop.2 := by
  refine pop_preserves (fun _ _ hstep hm ↦ hm.readerStep hstep) ?_
  have ht : l.reader.taking? = none := by
    cases hreader : l.reader <;> rw [hreader] at hr <;> first | rfl | cases hr
  exact h.of_reader rfl rfl rfl rfl rfl rfl rfl (by simp [Reader.isNudging, ht])
    (by simp [Reader.isReleasing, ht])

/-- A request leaves the consumer where it is. -/
theorem reader_request (l : Link α) (i : Nat) (r : Request α) :
    (l.request i r).2.reader = l.reader := by
  refine request_preserves (P := fun m ↦ m.reader = l.reader) (fun m m' hstep hm ↦ ?_) r rfl
  rw [← hm]
  cases hstep <;> simp [setProducer]

/-- A pop leaves nobody reading. -/
theorem isIdle_reader_pop (l : Link α) : l.pop.2.reader.isIdle = true := by
  rw [pop_eq]
  rfl

end Link

/-- What is asked of a channel that has no consumer. -/
inductive Errand (α : Type) where
  | send (writer : Nat) (r : Request α)
  | pop
  deriving DecidableEq, Repr

namespace Channel

variable [DecidableEq α] {c : Channel α}

/-- The channel after an errand, settled. -/
def undertake (c : Channel α) : Errand α → Channel α
  | .send writer r => (c.request writer r).2
  | .pop => c.pop.2

/-- What holds of a channel without a consumer between errands. -/
structure Sedate (c : Channel α) : Prop where
  conduct : c.conduct = none
  reader : c.link.reader.isIdle = true
  atRest : c.link.AtRest
  tended : c.link.Tended

/-- A channel is sedate again when it has settled. -/
theorem sedate_settle (hc : c.conduct = none) (hr : c.link.reader.isIdle = true)
    (h : c.link.Undisturbed) (hs : c.link.Serviced) (ht : c.link.Tended) : c.settle.Sedate := by
  rw [settle_of_isIdle hc hr]
  have hreader : c.link.settle.reader.isIdle = true :=
    Link.settle_preserves (P := fun l ↦ l.reader.isIdle = true)
      (fun m m' ha hm ↦ by rw [ha.reader_eq hm]; exact hm) hr
  exact ⟨hc, hreader, Link.atRest_settle h hs,
    Link.settle_preserves (fun _ _ ha hm ↦ hm.advance ha) ht⟩

/-- A channel is sedate when it has just been made of a ring. -/
theorem sedate_ofRing {ring : Ring α} (hle : ring.len ≤ ring.capacity) (wake : Signal)
    {room : Signal} (hroom : room.isOpen = true) : (ofRing ring wake room).Sedate :=
  sedate_settle rfl rfl ⟨Link.locked_opened ring wake room, fun _ ↦ rfl, hle, nofun, nofun⟩
    ⟨rfl, nofun, hroom⟩ (Link.tended_opened ring wake room)

/-- It is sedate after each errand. -/
theorem Sedate.undertake (h : c.Sedate) (e : Errand α) : (c.undertake e).Sedate := by
  cases e with
  | send writer r =>
    obtain ⟨hundisturbed, hserviced⟩ := h.atRest.request writer r
    exact sedate_settle (c := { c with link := (c.link.request writer r).2 }) h.conduct
      (by rw [Link.reader_request]; exact h.reader) hundisturbed hserviced
      (h.tended.request h.atRest.holder_eq writer r)
  | pop =>
    obtain ⟨hundisturbed, hserviced⟩ := h.atRest.pop
    exact sedate_settle (c := { c with link := c.link.pop.2 }) h.conduct c.link.isIdle_reader_pop
      hundisturbed hserviced (h.tended.pop h.reader)

/-- It is sedate after all errands, one after the other. -/
theorem Sedate.undertakeAll (h : c.Sedate) (es : List (Errand α)) :
    (es.foldl Channel.undertake c).Sedate := by
  induction es generalizing c with
  | nil => exact h
  | cons e es ih => exact ih (h.undertake e)

end Channel

namespace Link

/-- **No parked record sits beside a free slot.** While the drain thread rests without a
notification, and no producer and no reader is half way, records are parked only beside a full ring
and the stuck flag tells whether there are any. With errands that come one after the other the drain
thread always rests in between. -/
theorem graded_of_resting [DecidableEq α] {ring : Ring α} {wake room : Signal} :
    (∀ (ms : List (Move α)) (l : Link α), (opened ring wake room).moves? ms = some l →
      l.drain = .resting → l.room = .counting 0 → (∀ i, (l.producers i).isLocking = false) →
      l.reader.isReleasing = false → l.Graded) ∧
    (ring.len ≤ ring.capacity → room.isOpen = true → ∀ es : List (Errand α),
      let c := es.foldl Channel.undertake (Channel.ofRing ring wake room)
      c.link.drain = .resting ∧ c.link.room = .counting 0 ∧ c.link.Graded) := by
  constructor
  · intro ms l hmoves hd hc hp hr
    have htended : l.Tended :=
      foldlM_preserves (fun _ _ _ _ hmove hl ↦ hl.move hmove) hmoves (tended_opened ring wake room)
    exact htended.graded hd hc hp hr
  · intro hle hroom es
    have hsedate : (es.foldl Channel.undertake (Channel.ofRing ring wake room)).Sedate :=
      (Channel.sedate_ofRing hle wake hroom).undertakeAll es
    refine ⟨hsedate.atRest.drain_eq, hsedate.atRest.room_eq, ?_⟩
    refine hsedate.tended.graded hsedate.atRest.drain_eq hsedate.atRest.room_eq
      hsedate.atRest.undisturbed.outside ?_
    have hreader := hsedate.reader
    revert hreader
    generalize (es.foldl Channel.undertake (Channel.ofRing ring wake room)).link.reader = r
    cases r <;> first | exact fun _ ↦ rfl | exact nofun

/-- A record is sent while the ring is full, and the ring is emptied before the record is parked.
Another record is parked behind it. The drain thread then moves the first of the two. -/
def emptiedTooEarly : List (Move Nat) :=
  [.drain, .drain, .drain, .drain, .request 0 (.push 1), .produce 0, .produce 0,
    .produce 0, .produce 0, .request 0 (.push 2), .produce 0, .fetch, .read, .read, .produce 0,
    .produce 0, .produce 0, .produce 0, .request 1 (.pushQuietly 3), .produce 1, .produce 1,
    .produce 1, .produce 1, .produce 1, .drain, .drain, .drain, .drain, .drain, .drain,
    .drain, .drain]

/-- A record can be parked in an empty ring, but not in a channel that settles in between. -/
theorem graded_of_emptiedTooEarly :
    (∃ l, (opened (Ring.blank 1 (by decide)) .quiet .quiet).moves? emptiedTooEarly = some l ∧
      l.overflow = [⟨3, none⟩] ∧ l.Graded) ∧
    ∃ c, c = [Errand.send 0 (.push 1), .send 0 (.pushQuietly 2), .send 1 (.push 3), .pop].foldl
        Channel.undertake (Channel.ofRing (Ring.blank 1 (by decide)) .quiet .quiet) ∧
      c.link.overflow = [⟨3, none⟩] ∧ c.link.Graded := by
  have hrest : ((opened (Ring.blank 1 (by decide)) .quiet .quiet).moves? emptiedTooEarly).map
      (fun l ↦ (l.drain, l.room, l.holder)) = some (.resting, .counting 0, none) := by
    decide +kernel
  have hleft : ((opened (Ring.blank 1 (by decide)) .quiet .quiet).moves? emptiedTooEarly).map
      (fun l ↦ (l.reader, l.overflow)) = some (.popped (some 1), [⟨3, none⟩]) := by
    decide +kernel
  obtain ⟨l, hl, hseen⟩ := Option.map_eq_some_iff.1 hrest
  rw [hl] at hleft
  simp only [Option.map_some, Option.some.injEq, Prod.mk.injEq] at hseen hleft
  obtain ⟨hd, hc, hfree⟩ := hseen
  obtain ⟨hr, hover⟩ := hleft
  have htended : l.Tended :=
    foldlM_preserves (fun _ _ _ _ hmove hl ↦ hl.move hmove) hl (tended_opened _ _ _)
  exact ⟨⟨l, hl, hover, graded_of_resting.1 _ l hl hd hc (htended.locked.isLocking_producer hfree)
    (by rw [hr]; rfl)⟩, _, rfl, by decide +kernel, (graded_of_resting.2 (by decide) rfl _).2.2⟩

end Link

end RingCall
