import RingCall.Proofs.Link.Order
import RingCall.Proofs.Link.Turns

/-!
# Records while the threads take turns

A producer carries out its request while the other threads go on. Whatever the order of the turns,
each record stays at one place at a time (`Link.Placed`), and what else holds in the meantime is
kept as well (`Link.Tidy`).

Only one producer has a request at a time, and its record is the last one that was sent. It goes to
the back of the ring if nothing is parked, and behind what is parked otherwise, so that no record
overtakes another one.
-/

namespace RingCall

variable {α : Type}

/-- The records that a producer is to send and has not yet stored or parked. -/
def Producer.held : Producer α → List α
  | .asking r => r.items
  | .flagging record | .parking record => [record.item]
  | .idle _ | .looking _ | .rousing _ | .waking _ | .checking _ | .nudging _ => []

/-- A producer that was not asked for anything holds no record. -/
theorem Producer.held_of_isIdle {p : Producer α} (h : p.isIdle = true) : p.held = [] := by
  cases p with
  | idle => rfl
  | asking | looking | rousing | waking | flagging | parking | checking | nudging => cases h

namespace Link

variable {l l' : Link α} {i : Nat}

/-! ### What a producer leaves alone -/

namespace ProducerStep

/-- A producer handles nothing. -/
theorem handled_eq (h : ProducerStep i l l') : l'.handled = l.handled := by
  cases h <;> simp [setProducer]

/-- A producer stops nobody. -/
theorem stopping_eq (h : ProducerStep i l l') : l'.stopping = l.stopping := by
  cases h <;> simp [setProducer]

/-- A producer does not close the wake signal. -/
theorem isOpen_wake (h : ProducerStep i l l') : l'.wake.isOpen = l.wake.isOpen := by
  cases h <;> simp

/-- A producer leaves the drain thread of service. -/
theorem serviced (h : ProducerStep i l l') (hl : l.Serviced) : l'.Serviced := by
  have hclosing : l'.closing = l.closing := by cases h <;> simp [setProducer]
  have hdrain : l'.drain = l.drain := by cases h <;> simp
  have hroom : l'.room.isOpen = l.room.isOpen := by cases h <;> simp [setProducer]
  exact ⟨hclosing.trans hl.closing, hdrain ▸ hl.drain_ne, hroom.trans hl.room⟩

/-- A producer leaves the others where they are. -/
theorem producers_of_ne (h : ProducerStep i l l') {j : Nat} (hj : j ≠ i) :
    l'.producers j = l.producers j := by
  cases h <;> simp [setProducer, hj]

/-- A producer stores the record in its hand, or parks it, or does nothing that concerns records. -/
theorem records (h : ProducerStep i l l') :
    (l.ring.Alike l'.ring ∧ l'.overflow = l.overflow ∧
      (l'.producers i).held = (l.producers i).held) ∨
    (∃ item, (l.producers i).held = [item] ∧ l.overflow = [] ∧ l.ring.push? item = some l'.ring ∧
      l'.overflow = [] ∧ (l'.producers i).held = []) ∨
    ∃ record, (l.producers i).held = [record.item] ∧ l'.ring = l.ring ∧
      l'.overflow = l.overflow ++ [record] ∧ (l'.producers i).held = [] := by
  cases h with
  | busy hp _ hr | notice hp _ hr =>
    refine .inl ⟨.refl _, rfl, ?_⟩
    rw [hp, producers_setProducer_self, Producer.held, Producer.held, Request.items, hr]
    rfl
  | @miss r record wakes hp _ hr =>
    refine .inl ⟨.refl _, rfl, ?_⟩
    rw [hp, producers_setProducer_self, Producer.held, Producer.held, Request.items, hr]
    rfl
  | @store r record ring hp _ hr hs | @storeQuietly r record ring hp _ hr hs =>
    -- a record is stored only while none is parked
    obtain ⟨hnil, hpush⟩ := store?_eq_some hs
    refine .inr (.inl ⟨record.item, ?_, hnil, hpush, hnil, by simp [Producer.held]⟩)
    rw [hp, Producer.held, Request.items, hr]
    rfl
  | @park record hp =>
    exact .inr (.inr ⟨record, by rw [hp]; rfl, rfl, rfl, by simp [Producer.held]⟩)
  | rouse hp => exact .inl ⟨l.ring.alike_setWorking true, rfl, by simp [hp, Producer.held]⟩
  | flag hp => exact .inl ⟨l.ring.alike_setStuck true, rfl, by simp [hp, Producer.held]⟩
  | wake hp | nudge hp =>
    refine .inl ⟨?_, by simp [setProducer], by simp [hp, Producer.held]⟩
    simpa using Ring.Alike.refl l.ring
  | lookBusy hp | lookIdle hp | checkFull hp | checkRoom hp =>
    exact .inl ⟨.refl _, rfl, by simp [hp, Producer.held]⟩

end ProducerStep

/-- A consumer goes on running while producers take steps. -/
theorem Running.producerStep (h : l.Running) (hstep : ProducerStep i l l') : l'.Running where
  serviced := hstep.serviced h.serviced
  wake := hstep.isOpen_wake.trans h.wake
  stopping := hstep.stopping_eq.trans h.stopping
  staying := hstep.reader_eq ▸ h.staying

/-- It goes on running whosever turn it is. -/
theorem Running.turn (h : l.Running) {m : Move α} (hm : m.isTurn = true)
    (hmove : l.move? m = some l') :
    l'.Running := by
  cases m with
  | produce i => exact h.producerStep (.of_eq hmove)
  | drain => exact h.drainStep (.of_eq hmove)
  | read => exact h.readerStep (.of_eq hmove)
  | handle quits panics =>
    cases quits <;> cases panics <;> cases hm
    exact h.handle hmove
  | request | fetch | start | askToStop | close => cases hm

namespace Placed

variable {ring : Ring α} {sent held : List α}

/-- A record that a producer stores or parks gets the place behind all others. -/
theorem producerStep (h : Placed ring sent (l.producers i).held l) (hstep : ProducerStep i l l') :
    Placed ring sent (l'.producers i).held l' := by
  rcases hstep.records with ⟨hring, hover, hheld⟩ | ⟨item, hheld, hnil, hpush, hover, hheld'⟩ |
    ⟨record, hheld, hring, hover, hheld'⟩
  · rw [hheld]
    exact h.congr hring hover hstep.handled_eq hstep.reader_eq
  · rw [hheld] at h
    rw [hheld']
    exact h.store hnil hpush hover hstep.handled_eq hstep.reader_eq
  · rw [hheld] at h
    rw [hheld']
    exact h.park hring hover hstep.handled_eq hstep.reader_eq

end Placed

/-- What holds of a link on a ring at any time while producer `i` carries out its request, when the
records in `sent` are to be sent by the end of it. -/
structure Tidy (ring : Ring α) (i : Nat) (sent : List α) (l : Link α) : Prop where
  tended : l.Tended
  others : ∀ j, j ≠ i → (l.producers j).isIdle = true
  serviced : l.Serviced
  wake : l.wake.isOpen = true
  reader : l.reader = .away ∨ l.Running
  placed : Placed ring sent (l.producers i).held l

namespace Tidy

variable {ring : Ring α} {sent : List α}

/-- The link stays tidy while the producer that was asked takes its turns. -/
theorem producerStep (h : Tidy ring i sent l) (hstep : ProducerStep i l l') :
    Tidy ring i sent l' where
  tended := h.tended.producerStep hstep
  others j hj := by
    rw [hstep.producers_of_ne hj]
    exact h.others j hj
  serviced := hstep.serviced h.serviced
  wake := hstep.isOpen_wake.trans h.wake
  reader := h.reader.imp hstep.reader_eq.trans fun hr ↦ hr.producerStep hstep
  placed := h.placed.producerStep hstep

/-- It stays tidy while the drain thread takes turns. -/
theorem drainStep (h : Tidy ring i sent l) (hstep : DrainStep l l') : Tidy ring i sent l' where
  tended := h.tended.drainStep hstep
  others := hstep.producers_eq ▸ h.others
  serviced := hstep.serviced h.serviced
  wake := hstep.isOpen_wake.trans h.wake
  reader := h.reader.imp hstep.reader_eq.trans fun hr ↦ hr.drainStep hstep
  placed := by
    rw [hstep.producers_eq]
    exact h.placed.drainStep hstep

/-- It stays tidy while a running consumer takes turns. -/
theorem readerStep (h : Tidy ring i sent l) (hrunning : l.Running) (hstep : ReaderStep l l') :
    Tidy ring i sent l' where
  tended := h.tended.readerStep hstep
  others := hstep.sameWriters.producers_eq ▸ h.others
  serviced := hstep.sameWriters.serviced h.serviced hstep.isOpen_room
  wake := hstep.isOpen_wake.trans h.wake
  reader := .inr (hrunning.readerStep hstep)
  placed := by
    rw [hstep.sameWriters.producers_eq]
    exact h.placed.readerStep hrunning.staying hstep

/-- It stays tidy when a handler returns. -/
theorem handle (h : Tidy ring i sent l) (hrunning : l.Running)
    (hh : l.handle false false = some l') :
    Tidy ring i sent l' := by
  have htended := h.tended.handle hh
  have hrunning' := hrunning.handle hh
  have hplaced := h.placed.handle hh
  obtain ⟨_, _, _, _, -, rfl⟩ := handle_eq_some_of_returns hh
  exact ⟨htended, h.others, hrunning'.serviced, h.wake, .inr hrunning', hplaced⟩

/-- A reader that takes a turn is a consumer. -/
theorem running_of_turn (h : Tidy ring i sent l)
    (hturn : l.stepReader = some l' ∨ l.handle false false = some l') : l.Running := by
  refine h.reader.resolve_left fun haway ↦ ?_
  rcases hturn with hturn | hturn
  · simp [stepReader, haway] at hturn
  · simp [Link.handle, haway] at hturn

/-- **A tidy link stays so, whosever turn it is.** -/
theorem turn (h : Tidy ring i sent l) {m : Move α} (hm : m.isTurn = true)
    (hmove : l.move? m = some l') :
    Tidy ring i sent l' := by
  cases m with
  | produce j =>
    by_cases hj : j = i
    · subst hj
      exact h.producerStep (.of_eq hmove)
    · -- the other producers have nothing to do
      rw [move?_produce_of_isIdle (h.others j hj)] at hmove
      cases hmove
  | drain => exact h.drainStep (.of_eq hmove)
  | read => exact h.readerStep (h.running_of_turn (.inl hmove)) (.of_eq hmove)
  | handle quits panics =>
    cases quits <;> cases panics <;> cases hm
    exact h.handle (h.running_of_turn (.inr hmove)) hmove
  | request | fetch | start | askToStop | close => cases hm

/-- It stays tidy through any number of turns in any order. -/
theorem goesOn (h : Tidy ring i sent l) (hl : l.GoesOn l') : Tidy ring i sent l' :=
  hl.preserves (fun _ hm _ _ hmove ht ↦ ht.turn hm hmove) h

end Tidy

end Link

end RingCall
