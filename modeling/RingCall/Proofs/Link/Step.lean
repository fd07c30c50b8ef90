import RingCall.Link.Drain
import RingCall.Link.Producer
import RingCall.Link.Reader

/-!
# The steps of the threads, one by one

`ProducerStep`, `DrainStep` and `ReaderStep` list what one step of a thread can be: the stage at
which it is taken, what was seen, and the link that comes of it. Every step that the step functions
take is in the list (`ProducerStep.of_eq`, `DrainStep.of_eq`, `ReaderStep.of_eq`), so that a fact
about all steps is a fact about each entry.
-/

namespace RingCall

variable {α : Type} {l l' : Link α}

namespace Link

/-- A record is stored directly only if nothing is parked. -/
theorem store?_eq_some {item : α} {ring : Ring α} (h : l.store? item = some ring) :
    l.overflow = [] ∧ l.ring.push? item = some ring := by
  rw [store?] at h
  split at h
  · next hover => exact ⟨List.isEmpty_iff.1 hover, h⟩
  · cases h

/-- The steps of a producer. -/
inductive ProducerStep (i : Nat) (l : Link α) : Link α → Prop where
  /-- A consumer that is at work is not woken. -/
  | busy {r} (hp : l.producers i = .asking r) (hfree : l.holder = none) (hr : r.sent? = none)
      (hw : l.ring.isWorking = true) : ProducerStep i l (l.setProducer i (.idle (some .busy)))
  /-- A consumer is found idle. -/
  | notice {r} (hp : l.producers i = .asking r) (hfree : l.holder = none) (hr : r.sent? = none)
      (hw : l.ring.isWorking = false) :
      ProducerStep i l ({ l with holder := some (.producer i) }.setProducer i (.rousing .notified))
  /-- A record finds no place in the ring. -/
  | miss {r record wakes} (hp : l.producers i = .asking r) (hfree : l.holder = none)
      (hr : r.sent? = some (record, wakes)) (hs : l.store? record.item = none) :
      ProducerStep i l ({ l with holder := some (.producer i) }.setProducer i (.flagging record))
  /-- A record is stored, and the consumer is to be woken. -/
  | store {r record ring} (hp : l.producers i = .asking r) (hfree : l.holder = none)
      (hr : r.sent? = some (record, true)) (hs : l.store? record.item = some ring) :
      ProducerStep i l
        ({ l with ring, holder := some (.producer i) }.setProducer i (.looking .stored))
  /-- A record is stored, and the consumer is not to be woken. -/
  | storeQuietly {r record ring} (hp : l.producers i = .asking r) (hfree : l.holder = none)
      (hr : r.sent? = some (record, false)) (hs : l.store? record.item = some ring) :
      ProducerStep i l ({ l with ring }.setProducer i (.idle (some .stored)))
  | lookBusy {o} (hp : l.producers i = .looking o) (hw : l.ring.isWorking = true) :
      ProducerStep i l ({ l with holder := none }.setProducer i (.idle (some o)))
  | lookIdle {o} (hp : l.producers i = .looking o) (hw : l.ring.isWorking = false) :
      ProducerStep i l (l.setProducer i (.rousing o))
  | rouse {o} (hp : l.producers i = .rousing o) :
      ProducerStep i l
        ({ l with ring := l.ring.setWorking true, holder := none }.setProducer i (.waking o))
  | wake {o} (hp : l.producers i = .waking o) :
      ProducerStep i l ((l.signalWake .consumerNotNotified).setProducer i (.idle (some o)))
  | flag {record} (hp : l.producers i = .flagging record) :
      ProducerStep i l ({ l with ring := l.ring.setStuck true }.setProducer i (.parking record))
  | park {record} (hp : l.producers i = .parking record) :
      ProducerStep i l
        ({ l with overflow := l.overflow ++ [record] }.setProducer i (.checking record.ticket))
  | checkFull {ticket} (hp : l.producers i = .checking ticket) (hfull : l.ring.isFull = true) :
      ProducerStep i l ({ l with holder := none }.setProducer i (.idle (some (.parked ticket))))
  | checkRoom {ticket} (hp : l.producers i = .checking ticket) (hfull : l.ring.isFull = false) :
      ProducerStep i l (l.setProducer i (.nudging ticket))
  | nudge {ticket} (hp : l.producers i = .nudging ticket) :
      ProducerStep i l
        ({ l.signalRoom .drainNotWoken with holder := none }.setProducer i
          (.idle (some (.parked ticket))))

/-- All that a producer does is in the list. -/
theorem ProducerStep.of_eq {i : Nat} (h : l.stepProducer i = some l') : ProducerStep i l l' := by
  rw [stepProducer] at h
  cases hp : l.producers i with
  | idle last => simp [hp] at h
  | asking request =>
    simp only [hp] at h
    split at h
    · cases h
    · next hheld =>
      have hfree : l.holder = none := by simpa using hheld
      -- the lock is taken, and the request decides what comes next
      obtain rfl := Option.some.inj h
      rw [takeUp]
      cases hr : request.sent? with
      | none =>
        cases hw : l.ring.isWorking with
        | true => exact .busy hp hfree hr hw
        | false => exact .notice hp hfree hr hw
      | some sent =>
        obtain ⟨record, wakes⟩ := sent
        simp only
        cases hs : l.store? record.item with
        | none => exact .miss hp hfree hr hs
        | some ring =>
          cases wakes with
          | true => exact .store hp hfree hr hs
          | false => exact .storeQuietly hp hfree hr hs
  | looking outcome =>
    simp only [hp, Option.some.injEq] at h
    subst h
    cases hw : l.ring.isWorking with
    | true => exact .lookBusy hp hw
    | false => exact .lookIdle hp hw
  | rousing outcome =>
    simp only [hp, Option.some.injEq] at h
    exact h ▸ .rouse hp
  | waking outcome =>
    simp only [hp, Option.some.injEq] at h
    exact h ▸ .wake hp
  | flagging record =>
    simp only [hp, Option.some.injEq] at h
    exact h ▸ .flag hp
  | parking record =>
    simp only [hp, Option.some.injEq] at h
    exact h ▸ .park hp
  | checking ticket =>
    simp only [hp, Option.some.injEq] at h
    subst h
    cases hfull : l.ring.isFull with
    | true => exact .checkFull hp hfull
    | false => exact .checkRoom hp hfull
  | nudging ticket =>
    simp only [hp, Option.some.injEq] at h
    exact h ▸ .nudge hp

/-- The steps of the drain thread. -/
inductive DrainStep (l : Link α) : Link α → Prop where
  | start (hd : l.drain = .starting) (hc : l.closing = false) :
      DrainStep l { l with drain := .locking }
  | finish (hd : l.drain = .starting) (hc : l.closing = true) :
      DrainStep l { l with drain := .ended }
  | lock (hd : l.drain = .locking) (hfree : l.holder = none) :
      DrainStep l { l with holder := some .drain, drain := .flushing false }
  /-- The oldest parked record enters the ring. -/
  | move {moved record rest ring} (hd : l.drain = .flushing moved)
      (hover : l.overflow = record :: rest) (hpush : l.ring.push? record.item = some ring) :
      DrainStep l
        { l with
          ring
          overflow := rest
          landed := l.landed ++ record.ticket.toList
          drain := .flushing true }
  /-- No more records can be moved, but some were. -/
  | halt (hd : l.drain = .flushing true) (hm : l.moveOne? = none) :
      DrainStep l { l with drain := .looking }
  /-- No record could be moved at all. -/
  | skip (hd : l.drain = .flushing false) (hm : l.moveOne? = none) :
      DrainStep l { l with drain := .grading }
  | lookBusy (hd : l.drain = .looking) (hw : l.ring.isWorking = true) :
      DrainStep l { l with drain := .grading }
  | lookIdle (hd : l.drain = .looking) (hw : l.ring.isWorking = false) :
      DrainStep l { l with drain := .rousing }
  | rouse (hd : l.drain = .rousing) :
      DrainStep l { l with ring := l.ring.setWorking true, drain := .waking }
  | wake (hd : l.drain = .waking) :
      DrainStep l { l.signalWake .consumerNotNotified with drain := .grading }
  | clear (hd : l.drain = .grading) (hover : l.overflow = []) :
      DrainStep l { l with ring := l.ring.setStuck false, holder := none, drain := .resting }
  | flag (hd : l.drain = .grading) (hover : l.overflow ≠ []) :
      DrainStep l { l with ring := l.ring.setStuck true, drain := .checking }
  | checkFull (hd : l.drain = .checking) (hfull : l.ring.isFull = true) :
      DrainStep l { l with holder := none, drain := .resting }
  | checkRoom (hd : l.drain = .checking) (hfull : l.ring.isFull = false) :
      DrainStep l { l with holder := none, drain := .starting }
  | hear {n room} (hd : l.drain = .resting) (hr : l.room.wait = (.ready n, room)) :
      DrainStep l { l with room, drain := .starting }
  | fail {cause room} (hd : l.drain = .resting) (hr : l.room.wait = (.failed cause, room)) :
      DrainStep l { l.report (.drainWaitFailed cause) with drain := .ended }

/-- All that the drain thread does is in the list. -/
theorem DrainStep.of_eq (h : l.stepDrain = some l') : DrainStep l l' := by
  rw [stepDrain] at h
  cases hd : l.drain with
  | starting =>
    simp only [hd, Option.some.injEq] at h
    subst h
    by_cases hc : l.closing = true
    · rw [if_pos hc]
      exact .finish hd hc
    · rw [if_neg hc]
      exact .start hd (by simpa using hc)
  | locking =>
    simp only [hd] at h
    split at h
    · cases h
    · next hheld =>
      obtain rfl := Option.some.inj h
      exact .lock hd (by simpa using hheld)
  | flushing moved =>
    simp only [hd] at h
    split at h
    · next m hm =>
      obtain rfl := Option.some.inj h
      -- a record is moved only if one is parked and the ring has room for it
      rw [moveOne?] at hm
      split at hm
      · cases hm
      · next record rest hover =>
        obtain ⟨ring, hpush, rfl⟩ := Option.map_eq_some_iff.1 hm
        exact .move hd hover hpush
    · next hm =>
      obtain rfl := Option.some.inj h
      cases moved with
      | true => exact .halt hd hm
      | false => exact .skip hd hm
  | looking =>
    simp only [hd, Option.some.injEq] at h
    subst h
    cases hw : l.ring.isWorking with
    | true => exact .lookBusy hd hw
    | false => exact .lookIdle hd hw
  | rousing =>
    simp only [hd, Option.some.injEq] at h
    exact h ▸ .rouse hd
  | waking =>
    simp only [hd, Option.some.injEq] at h
    exact h ▸ .wake hd
  | grading =>
    simp only [hd] at h
    split at h
    · next hover => exact Option.some.inj h ▸ .clear hd (List.isEmpty_iff.1 hover)
    · next hover => exact Option.some.inj h ▸ .flag hd fun hnil ↦ hover (List.isEmpty_iff.2 hnil)
  | checking =>
    simp only [hd, Option.some.injEq] at h
    subst h
    cases hfull : l.ring.isFull with
    | true => exact .checkFull hd hfull
    | false => exact .checkRoom hd hfull
  | resting =>
    simp only [hd] at h
    split at h
    · next hr => exact Option.some.inj h ▸ .hear hd hr
    · cases h
    · next hr => exact Option.some.inj h ▸ .fail hd hr
  | ended => simp [hd] at h

/-- The steps of taking a record, each with what comes next or with the record that was taken. -/
inductive TakingStep (l : Link α) : Taking α → Taking α ⊕ Option α → Link α → Prop where
  | take {item ring} (hpop : l.ring.pop? = some (item, ring)) :
      TakingStep l .taking (.inl (.looking (some item))) { l with ring }
  | miss (hpop : l.ring.pop? = none) : TakingStep l .taking (.inl (.looking none)) l
  | lookStuck {got} (hs : l.ring.isStuck = true) :
      TakingStep l (.looking got) (.inl (.clearing got)) l
  | lookFree {got} (hs : l.ring.isStuck = false) : TakingStep l (.looking got) (.inr got) l
  | clear {got} (hs : l.ring.isStuck = true) :
      TakingStep l (.clearing got) (.inl (.nudging got)) { l with ring := l.ring.setStuck false }
  /-- Somebody else has cleared the flag meanwhile. -/
  | clearLate {got} (hs : l.ring.isStuck = false) :
      TakingStep l (.clearing got) (.inr got) { l with ring := l.ring.setStuck false }
  | nudge {got} : TakingStep l (.nudging got) (.inr got) (l.signalRoom .producerNotNotified)

/-- All that can come of a stage of taking is in the list. -/
theorem TakingStep.of_eq {stage : Taking α} {next : Taking α ⊕ Option α}
    (h : l.stepTaking stage = (next, l')) : TakingStep l stage next l' := by
  cases stage with
  | taking =>
    rw [stepTaking] at h
    split at h
    · next hpop =>
      obtain ⟨rfl, rfl⟩ := Prod.mk.inj h
      exact .take hpop
    · next hpop =>
      obtain ⟨rfl, rfl⟩ := Prod.mk.inj h
      exact .miss hpop
  | looking got =>
    obtain ⟨rfl, rfl⟩ := Prod.mk.inj h
    cases hs : l.ring.isStuck with
    | true => exact .lookStuck hs
    | false => exact .lookFree hs
  | clearing got =>
    obtain ⟨rfl, rfl⟩ := Prod.mk.inj h
    cases hs : l.ring.isStuck with
    | true => exact .clear hs
    | false => exact .clearLate hs
  | nudging got =>
    obtain ⟨rfl, rfl⟩ := Prod.mk.inj h
    exact .nudge

/-- The steps of the read end. -/
inductive ReaderStep (l : Link α) : Link α → Prop where
  | pop {stage next m} (hr : l.reader = .popping stage) (ht : TakingStep l stage (.inl next) m) :
      ReaderStep l { m with reader := .popping next }
  | popped {stage got m} (hr : l.reader = .popping stage) (ht : TakingStep l stage (.inr got) m) :
      ReaderStep l { m with reader := .popped got }
  | start {w} (hr : l.reader = .looping w .starting) :
      ReaderStep l
        { l with ring := l.ring.setWorking true, reader := .looping w (.heading false) }
  | stop {w woken} (hr : l.reader = .looping w (.heading woken)) (hs : l.stopping = true) :
      ReaderStep l { l with reader := .looping w (.clearing true) }
  | go {w woken} (hr : l.reader = .looping w (.heading woken)) (hs : l.stopping = false) :
      ReaderStep l { l with reader := .looping w (.draining .taking 0 woken) }
  | take {w stage count woken next m} (hr : l.reader = .looping w (.draining stage count woken))
      (ht : TakingStep l stage (.inl next) m) :
      ReaderStep l { m with reader := .looping w (.draining next count woken) }
  | taken {w stage count woken item m} (hr : l.reader = .looping w (.draining stage count woken))
      (ht : TakingStep l stage (.inr (some item)) m) :
      ReaderStep l { m with reader := .looping w (.handling item count woken) }
  | drained {w stage count woken m} (hr : l.reader = .looping w (.draining stage count woken))
      (ht : TakingStep l stage (.inr none) m) :
      ReaderStep l { m with reader := .looping (w.reset count woken) .idling }
  /-- An idle period ends with a record. -/
  | spot {w done w'} (hr : l.reader = .looping w .idling) (hwait : w.wait = (done, w'))
      (he : l.ring.isEmpty = false) :
      ReaderStep l { l with reader := .looping w' (.heading false) }
  /-- An idle period ends without a record. -/
  | giveUp {w done w'} (hr : l.reader = .looping w .idling) (hwait : w.wait = (done, w'))
      (he : l.ring.isEmpty = true) (hd : (done || l.stopping) = true) :
      ReaderStep l { l with reader := .looping w' (.clearing false) }
  | idle {w done w'} (hr : l.reader = .looping w .idling) (hwait : w.wait = (done, w'))
      (he : l.ring.isEmpty = true) (hd : (done || l.stopping) = false) :
      ReaderStep l { l with reader := .looping w' .idling }
  | clear {w leaving} (hr : l.reader = .looping w (.clearing leaving)) :
      ReaderStep l
        { l with ring := l.ring.setWorking false, reader := .looping w (.checking leaving) }
  | block {w} (hr : l.reader = .looping w (.checking false)) (he : l.ring.isEmpty = true) :
      ReaderStep l { l with reader := .looping w .blocking }
  | leave {w} (hr : l.reader = .looping w (.checking true)) (he : l.ring.isEmpty = true) :
      ReaderStep l { l with reader := .away }
  | notice {w leaving} (hr : l.reader = .looping w (.checking leaving))
      (he : l.ring.isEmpty = false) :
      ReaderStep l { l with reader := .looping w (.resuming leaving) }
  | resume {w} (hr : l.reader = .looping w (.resuming false)) :
      ReaderStep l
        { l with ring := l.ring.setWorking true, reader := .looping w (.heading false) }
  | resumeAway {w} (hr : l.reader = .looping w (.resuming true)) :
      ReaderStep l { l with ring := l.ring.setWorking true, reader := .away }
  | hear {w n wake} (hr : l.reader = .looping w .blocking)
      (hw : l.wake.wait = (.ready n, wake)) :
      ReaderStep l { l with wake, reader := .looping w .waking }
  | fail {w cause wake} (hr : l.reader = .looping w .blocking)
      (hw : l.wake.wait = (.failed cause, wake)) :
      ReaderStep l
        { l.report (.readerWaitFailed cause) with reader := .looping w (.clearing true) }
  | awake {w} (hr : l.reader = .looping w .waking) :
      ReaderStep l
        { l with ring := l.ring.setWorking true, reader := .looping w (.heading true) }

/-- All that the consumer does is in the list. -/
theorem ReaderStep.of_eq (h : l.stepReader = some l') : ReaderStep l l' := by
  rw [stepReader] at h
  cases hr : l.reader with
  | away | popped got | crashed => simp [hr] at h
  | popping stage =>
    simp only [hr, Option.some.injEq] at h
    subst h
    rcases ht : l.stepTaking stage with ⟨next | got, m⟩
    · exact .pop hr (.of_eq ht)
    · exact .popped hr (.of_eq ht)
  | looping w stage =>
    simp only [hr] at h
    cases stage with
    | starting => exact Option.some.inj h ▸ .start hr
    | heading woken =>
      obtain rfl := Option.some.inj h
      by_cases hs : l.stopping = true
      · simp only [if_pos hs]
        exact .stop hr hs
      · simp only [if_neg hs]
        exact .go hr (by simpa using hs)
    | draining stage count woken =>
      rw [stepLoop] at h
      -- taking goes on, or has found nothing, or has found a record
      rcases ht : l.stepTaking stage with ⟨next | (- | item), m⟩
      · simp only [ht, Option.some.injEq] at h
        exact h ▸ .take hr (.of_eq ht)
      · simp only [ht, Option.some.injEq] at h
        exact h ▸ .drained hr (.of_eq ht)
      · simp only [ht, Option.some.injEq] at h
        exact h ▸ .taken hr (.of_eq ht)
    | handling item count woken => cases h
    | idling =>
      rw [stepLoop] at h
      rcases hwait : w.wait with ⟨done, w'⟩
      simp only [hwait, Option.some.injEq] at h
      subst h
      cases he : l.ring.isEmpty with
      | false => exact .spot hr hwait he
      | true =>
        cases hd : done || l.stopping with
        | true => exact .giveUp hr hwait he hd
        | false => exact .idle hr hwait he hd
    | clearing leaving => exact Option.some.inj h ▸ .clear hr
    | checking leaving =>
      obtain rfl := Option.some.inj h
      cases he : l.ring.isEmpty with
      | false => exact .notice hr he
      | true =>
        cases leaving with
        | false => exact .block hr he
        | true => exact .leave hr he
    | resuming leaving =>
      obtain rfl := Option.some.inj h
      cases leaving with
      | false => exact .resume hr
      | true => exact .resumeAway hr
    | blocking =>
      rw [stepLoop] at h
      split at h
      · next hw => exact Option.some.inj h ▸ .hear hr hw
      · cases h
      · next hw => exact Option.some.inj h ▸ .fail hr hw
    | waking => exact Option.some.inj h ▸ .awake hr

end Link

end RingCall
