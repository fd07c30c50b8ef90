import RingCall.Proofs.Link.Conservation
import RingCall.Proofs.Link.Settling

/-!
# Links at rest

Whatever is asked of a link whose write end is open, afterwards its threads settle and the drain
thread rests again without a notification (`Link.atRest_settle`). So a link that is used by one
errand at a time is found at rest by each of them.

A request and a single pop are carried out while the drain thread stands still; they leave nobody
half way (`AtRest.request`, `AtRest.pop`).
-/

namespace RingCall

variable {α : Type}

/-- Whether a descriptor is open. -/
def Signal.isOpen : Signal → Bool
  | .counting _ => true
  | .negative | .unopened => false

/-- Waiting leaves a descriptor as open as it was. -/
theorem Signal.isOpen_of_wait {s s' : Signal} {outcome : Waited Nat} (h : s.wait = (outcome, s')) :
    s'.isOpen = s.isOpen := by
  rcases s with (- | n) | - | - <;> obtain ⟨-, rfl⟩ := Prod.mk.inj h <;> rfl

/-- Waiting for an open descriptor does not fail. -/
theorem Signal.wait_ne_failed {s s' : Signal} {cause : IoError} (hs : s.isOpen = true) :
    s.wait ≠ (.failed cause, s') := by
  rcases s with (- | n) | - | - <;> simp_all [wait, isOpen]

namespace Link

variable {l l' : Link α}

@[simp] theorem isOpen_room_signalRoom (l : Link α) (f : IoError → Report) :
    (l.signalRoom f).room.isOpen = l.room.isOpen := by
  rw [signalRoom_eq]
  cases l.room <;> simp [Signal.notify, Except.toOption, Signal.isOpen]

@[simp] theorem isOpen_wake_signalWake (l : Link α) (f : IoError → Report) :
    (l.signalWake f).wake.isOpen = l.wake.isOpen := by
  rw [signalWake_eq]
  cases l.wake <;> simp [Signal.notify, Except.toOption, Signal.isOpen]

@[simp] theorem closing_signalWake (l : Link α) (f : IoError → Report) :
    (l.signalWake f).closing = l.closing := by
  rw [signalWake_eq]

@[simp] theorem closing_signalRoom (l : Link α) (f : IoError → Report) :
    (l.signalRoom f).closing = l.closing := by
  rw [signalRoom_eq]

/-! ### A write end at work -/

/-- The write end is open: nobody closes it, and its drain thread can be woken. -/
structure Serviced (l : Link α) : Prop where
  closing : l.closing = false
  drain_ne : l.drain ≠ .ended
  room : l.room.isOpen = true

/-- The drain thread goes on being of service while it moves records. -/
theorem DrainStep.serviced (h : DrainStep l l') (hl : l.Serviced) : l'.Serviced := by
  cases h with
  | finish _ hc => rw [hl.closing] at hc; cases hc
  | fail _ hr => exact absurd hr (Signal.wait_ne_failed hl.room)
  | hear _ hr => exact ⟨hl.closing, nofun, (Signal.isOpen_of_wait hr).trans hl.room⟩
  | wake => exact ⟨by simpa using hl.closing, nofun, by simpa using hl.room⟩
  | start | lock | move | halt | skip | lookBusy | lookIdle | rouse | clear | flag | checkFull
  | checkRoom =>
    exact ⟨hl.closing, nofun, hl.room⟩

/-- Taking a record does not close the room signal. -/
theorem TakingStep.isOpen_room {stage : Taking α} {next : Taking α ⊕ Option α}
    (h : TakingStep l stage next l') : l'.room.isOpen = l.room.isOpen := by
  cases h with
  | take | miss | lookStuck | lookFree | clear | clearLate => rfl
  | nudge => simp

/-- The consumer does not close the room signal. -/
theorem ReaderStep.isOpen_room (h : ReaderStep l l') : l'.room.isOpen = l.room.isOpen := by
  cases h with
  | pop _ ht | popped _ ht | take _ ht | taken _ ht | drained _ ht => exact ht.isOpen_room
  | start | stop | go | spot | giveUp | idle | clear | block | leave | notice | resume | resumeAway
  | hear | fail | awake => rfl

/-- The drain thread is of service as long as the writers and the room signal stay as they are. -/
theorem SameWriters.serviced (h : l.SameWriters l') (hl : l.Serviced)
    (hroom : l'.room.isOpen = l.room.isOpen) : l'.Serviced :=
  ⟨h.closing_eq.trans hl.closing, h.drain_eq ▸ hl.drain_ne, hroom.trans hl.room⟩

/-- The drain thread goes on being of service, whatever thread takes a step. -/
theorem Serviced.advance (hl : l.Serviced) (h : Advance l l') : l'.Serviced := by
  cases h with
  | drain h => exact h.serviced hl
  | read _ _ h => exact h.sameWriters.serviced hl h.isOpen_room
  | giveUp => exact ⟨hl.closing, hl.drain_ne, hl.room⟩
  | handle _ h =>
    obtain ⟨_, _, _, _, -, rfl⟩ := handle_eq_some_of_returns h
    exact ⟨hl.closing, hl.drain_ne, hl.room⟩

/-! ### Rest -/

/-- The drain thread rests without a notification, and the producers stand still. -/
structure AtRest (l : Link α) : Prop where
  undisturbed : l.Undisturbed
  closing : l.closing = false
  drain_eq : l.drain = .resting
  room_eq : l.room = .counting 0

/-- A link is at rest when the drain thread has nothing to do. -/
theorem atRest_of_stepDrain (h : l.Undisturbed) (hs : l.Serviced) (hd : l.stepDrain = none) :
    l.AtRest := by
  rcases h.of_stepDrain hd with ⟨hrest, hroom⟩ | hend
  · exact ⟨h, hs.closing, hrest, hroom⟩
  · exact absurd hend hs.drain_ne

/-- No thread of a settled link can go on, and its drain thread rests. -/
theorem atRest_settle (h : l.Undisturbed) (hs : l.Serviced) : l.settle.AtRest := by
  have hnone := advanceFreely_settle h
  refine atRest_of_stepDrain (settle_preserves (fun _ _ ha hm ↦ hm.advance ha) h)
    (settle_preserves (fun _ _ ha hm ↦ hm.advance ha) hs) ?_
  rw [advanceFreely] at hnone
  split at hnone
  · cases hnone
  · next ha => exact stepDrain_of_advance ha

/-! ### Requests and single pops -/

/-- What a request does while nobody else goes on is preserved if each step of a producer does
so. -/
theorem request_preserves {P : Link α → Prop} {i : Nat}
    (hstep : ∀ m m', ProducerStep i m m' → P m → P m')
    (r : Request α) (hl : P (l.setProducer i (.asking r))) : P (l.request i r).2 := by
  have hrun : P (runSteps (stepProducer i) requestSteps (l.setProducer i (.asking r))) :=
    runSteps_preserves (fun _ _ h ↦ hstep _ _ (.of_eq h)) _ hl
  rw [request]
  split <;> exact hrun

/-- What each step of the consumer preserves is preserved by a pop. -/
theorem pop_preserves {P : Link α → Prop} (hstep : ∀ m m', ReaderStep m m' → P m → P m')
    (hl : P { l with reader := .popping .taking }) : P l.pop.2 := by
  have hrun : P (runSteps stepReader popSteps { l with reader := .popping .taking }) :=
    runSteps_preserves (fun _ _ h ↦ hstep _ _ (.of_eq h)) _ hl
  rw [pop]
  split <;> exact hrun

/-- A request does not overfill the ring. -/
theorem len_le_fulfil (hle : l.ring.len ≤ l.ring.capacity) (r : Request α) :
    (l.fulfil r).ring.len ≤ (l.fulfil r).ring.capacity := by
  have halike {m m' : Link α} (h : m.ring.Alike m'.ring) (hm : m.ring.len ≤ m.ring.capacity) :
      m'.ring.len ≤ m'.ring.capacity := by
    rw [h.len_eq, h.capacity_eq]
    exact hm
  rw [fulfil]
  cases r.sent? with
  | none => exact halike l.alike_rouse hle
  | some sent =>
    obtain ⟨record, wakes⟩ := sent
    rcases hs : l.store? record.item with - | stored
    · simpa only [hs] using halike (l.alike_park record) hle
    · have hstored : stored.len ≤ stored.capacity := Ring.len_le_of_push? hle (store?_eq_some hs).2
      cases wakes with
      | false => simpa only [hs, Bool.false_eq_true, if_false] using hstored
      | true =>
        simpa only [hs, if_true] using halike (alike_rouse { l with ring := stored }) hstored

section Fulfil

variable (l : Link α) (r : Request α)

@[simp] theorem closing_fulfil : (l.fulfil r).closing = l.closing := by
  unfold fulfil rouse park
  grind [closing_signalWake, closing_signalRoom]

@[simp] theorem isOpen_room_fulfil : (l.fulfil r).room.isOpen = l.room.isOpen := by
  unfold fulfil rouse park
  grind [room_signalWake, isOpen_room_signalRoom]

end Fulfil

namespace AtRest

/-- The drain thread has nothing to do in a link at rest. -/
theorem stepDrain_eq (h : l.AtRest) : l.stepDrain = none := by
  simp [stepDrain, h.drain_eq, h.room_eq, Signal.wait]

/-- Nobody holds the lock of a link at rest. -/
theorem holder_eq (h : l.AtRest) : l.holder = none :=
  h.undisturbed.locked.holder_eq_none h.undisturbed.outside (by rw [h.drain_eq]; rfl)

/-- The drain thread can serve a link at rest after a request. -/
theorem request (h : l.AtRest) (i : Nat) (r : Request α) :
    Undisturbed (l.request i r).2 ∧ Serviced (l.request i r).2 := by
  have hfree := h.holder_eq
  rw [request_eq hfree]
  have hlocked : ((l.fulfil r).setProducer i (.idle (some (l.answer r)))).Locked :=
    -- taken together, the steps of a request go from idle to idle
    h.undisturbed.locked.inside (i := i) (p := .idle (some (l.answer r))) (.inl hfree)
      (by simp [hfree, Producer.isLocking]) (by simp [setProducer]) (by simp)
  refine ⟨⟨hlocked, hlocked.isLocking_producer (by simp [hfree]),
    len_le_fulfil h.undisturbed.len_le r, ?_, ?_⟩, ⟨?_, ?_, ?_⟩⟩
  · intro ht
    rw [drain_setProducer, drain_fulfil, h.drain_eq] at ht
    cases ht
  · intro hc
    rw [drain_setProducer, drain_fulfil, h.drain_eq] at hc
    cases hc
  · simpa [setProducer] using h.closing
  · simp [h.drain_eq]
  · show (l.fulfil r).room.isOpen = true
    rw [isOpen_room_fulfil, h.room_eq]
    rfl

/-- It can serve a link at rest after a pop. -/
theorem pop (h : l.AtRest) : Undisturbed l.pop.2 ∧ Serviced l.pop.2 := by
  have hstart : SameWriters l { l with reader := .popping .taking } := ⟨rfl, rfl, rfl, rfl, rfl⟩
  let P : Link α → Prop := fun m ↦
    l.SameWriters m ∧ m.ring.len ≤ m.ring.capacity ∧ m.room.isOpen = l.room.isOpen
  have hpop : P l.pop.2 := by
    refine pop_preserves (fun m m' hstep hm ↦ ?_) ⟨hstart, h.undisturbed.len_le, rfl⟩
    obtain ⟨hsame, hle, hopen⟩ := hm
    exact ⟨hsame.trans hstep.sameWriters, hstep.len_le hle, hstep.isOpen_room.trans hopen⟩
  obtain ⟨hsame, hle, hopen⟩ := hpop
  have hs : l.Serviced := ⟨h.closing, by rw [h.drain_eq]; nofun, by rw [h.room_eq]; rfl⟩
  exact ⟨h.undisturbed.of_sameWriters h.stepDrain_eq hsame hle, hsame.serviced hs hopen⟩

end AtRest

end Link

end RingCall
