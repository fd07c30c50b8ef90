import RingCall.Proofs.Link.Consumer
import RingCall.Proofs.Ring.Wraparound

/-!
# Records stay in order

A record is at one place at any time: in the hand of whoever sends it, parked, in the ring, in the
consumer's hand, or handed over (`Link.Placed`). Whatever a thread of a link does, no record is
added, lost or doubled in number, wherever the counters are.

The records also stay in the order in which they were sent (`Link.Conveys`) as long as the slots
stay in turn. For this the counters may not wrap around, unless the capacity divides the size of a
word (`Ring.Lasts`), or no record is parked and the ring is empty.
-/

namespace RingCall

variable {α : Type}

/-- The record that was taken. -/
def Taking.got? : Taking α → Option α
  | .taking => none
  | .looking got | .clearing got | .nudging got => got

/-- The record that a consumer has taken and not yet handed to its handler. -/
def Reader.carried : Reader α → List α
  | .looping _ (.draining stage _ _) => stage.got?.toList
  | .looping _ (.handling item _ _) => [item]
  | _ => []

namespace Link

variable {l l' : Link α} {sent : List α}

/-! ### Records stay in order -/

/-- Where the tail will be once all parked records have entered the ring, unless it wraps around. -/
def reach (l : Link α) : Nat :=
  l.ring.control.head.toNat + l.ring.len.toNat + l.overflow.length

/-- The records that have entered the ring: those handed over, in the consumer's hand and still in
the ring. -/
def entered (l : Link α) : List α := l.handled.toList ++ l.reader.carried ++ l.ring.contents

/-- The records handed over, in the consumer's hand, in the ring and parked are those that were
sent. -/
structure Conveys (sent : List α) (l : Link α) : Prop where
  kept : l.handled.toList ++ l.reader.carried ++ l.ring.contents ++ l.overflow.map (·.item) = sent
  /-- The slots stay in turn until the parked records have entered the ring: they do so wherever the
  counters are, or no counter wraps around before. -/
  fits : l.overflow = [] ∨ l.ring.capacity.toNat ∣ 2 ^ 64 ∨ l.reach ≤ 2 ^ 64

/-- The record that is taken was the first one in the ring. -/
theorem TakingStep.contents_eq {stage : Taking α} {next : Taking α ⊕ Option α}
    (h : TakingStep l stage next l') :
    (next.elim Taking.got? id).toList ++ l'.ring.contents = stage.got?.toList ++
      l.ring.contents := by
  cases h with
  | take hpop => exact (Ring.contents_of_pop? hpop).symm
  | miss | lookStuck | lookFree | clear | clearLate => rfl
  | nudge => simp [Taking.got?]

/-- Taking a record does not make the link reach farther. -/
theorem TakingStep.reach_le {stage : Taking α} {next : Taking α ⊕ Option α}
    (h : TakingStep l stage next l') : l'.reach ≤ l.reach := by
  cases h with
  | take hpop =>
    have hlen := Ring.toNat_len_of_pop? hpop
    have hhead := Nat.mod_le (l.ring.control.head.toNat + 1) (2 ^ 64)
    simp only [reach, Ring.head_of_pop? hpop, UInt64.toNat_add, UInt64.toNat_one]
    omega
  | miss | lookStuck | lookFree | clear | clearLate => exact Nat.le_refl _
  | nudge => simp [reach]

/-- Taking a record leaves the capacity alone. -/
theorem TakingStep.capacity_eq {stage : Taking α} {next : Taking α ⊕ Option α}
    (h : TakingStep l stage next l') : l'.ring.capacity = l.ring.capacity := by
  cases h with
  | take hpop => exact Ring.capacity_of_pop? hpop
  | miss | lookStuck | lookFree | clear | clearLate => rfl
  | nudge => simp

/-- A record that is taken is not handled yet. -/
theorem TakingStep.handled_eq {stage : Taking α} {next : Taking α ⊕ Option α}
    (h : TakingStep l stage next l') : l'.handled = l.handled := by
  cases h <;> simp

/-- A parked record that enters the ring was reached before. -/
theorem DrainStep.reach_le (h : DrainStep l l') (hle : l.ring.len ≤ l.ring.capacity) :
    l'.reach ≤ l.reach := by
  cases h with
  | move _ hover hpush =>
    have hlen := Ring.toNat_len_of_push? hle hpush
    simp only [reach, Ring.head_of_push? hpush, hlen, hover, List.length_cons]
    omega
  | wake | fail => simp [reach, report]
  | start | finish | lock | halt | skip | lookBusy | lookIdle | rouse | clear | flag | checkFull
  | checkRoom | hear =>
    exact Nat.le_refl _

/-- No step of the consumer makes the link reach farther. -/
theorem ReaderStep.reach_le (h : ReaderStep l l') : l'.reach ≤ l.reach := by
  cases h with
  | pop _ ht | popped _ ht | take _ ht | taken _ ht | drained _ ht => exact ht.reach_le
  | start | stop | go | spot | giveUp | idle | clear | block | leave | notice | resume | resumeAway
  | hear | fail | awake => exact Nat.le_refl _

/-- The drain thread leaves the capacity alone. -/
theorem DrainStep.capacity_eq (h : DrainStep l l') : l'.ring.capacity = l.ring.capacity := by
  cases h with
  | move _ _ hpush => exact Ring.capacity_of_push? hpush
  | wake => simp
  | start | finish | lock | halt | skip | lookBusy | lookIdle | rouse | clear | flag | checkFull
  | checkRoom | hear | fail => rfl

/-- The consumer leaves the capacity alone. -/
theorem ReaderStep.capacity_eq (h : ReaderStep l l') : l'.ring.capacity = l.ring.capacity := by
  cases h with
  | pop _ ht | popped _ ht | take _ ht | taken _ ht | drained _ ht => exact ht.capacity_eq
  | start | stop | go | spot | giveUp | idle | clear | block | leave | notice | resume | resumeAway
  | hear | fail | awake => rfl

/-- The reader hands over the records that have entered the ring, in their order. -/
theorem ReaderStep.entered_eq (h : ReaderStep l l') (hstaying : l.reader.isStaying = true) :
    l'.entered = l.entered := by
  rw [entered, entered]
  cases h with
  | pop hr | popped hr => rw [hr] at hstaying; cases hstaying
  | take hr ht | taken hr ht | drained hr ht =>
    have hcontents := ht.contents_eq
    simp only [Sum.elim_inl, Sum.elim_inr, id_eq, Option.toList_some,
      Option.toList_none] at hcontents
    simp only [ht.handled_eq, hr, Reader.carried, List.append_assoc, ← hcontents]
  | start hr | stop hr | go hr | spot hr | giveUp hr | idle hr | clear hr | block hr | leave hr
  | notice hr | resume hr | resumeAway hr | hear hr | fail hr | awake hr =>
    rw [hr]
    rfl

/-- What has been handled has entered the ring before. -/
theorem entered_of_handle (h : l.handle false false = some l') : l'.entered = l.entered := by
  obtain ⟨_, item, _, _, hr, rfl⟩ := handle_eq_some_of_returns h
  simp [entered, hr, Reader.carried, Taking.got?]

namespace Conveys

/-- The drain thread keeps the order of what was sent. -/
theorem drainStep (h : l.Conveys sent) (hle : l.ring.len ≤ l.ring.capacity)
    (hstep : DrainStep l l') : l'.Conveys sent := by
  have hreach := hstep.reach_le hle
  cases hstep with
  | @move _ record rest stored hd hover hpush =>
    -- the record goes from the front of the overflow to the back of the ring
    have hfits := h.fits.resolve_left (by rw [hover]; nofun)
    have hcontents : stored.contents = l.ring.contents ++ [record.item] :=
      Ring.contents_of_push?_of_fits hle
        (.inr (hfits.imp_right fun hwrap ↦ by
          rw [reach, hover, List.length_cons] at hwrap
          omega)) hpush
    refine ⟨?_, .inr ?_⟩
    · have hkept := h.kept
      rw [hover] at hkept
      rw [← hkept, hcontents]
      simp
    · show stored.capacity.toNat ∣ _ ∨ _
      rw [Ring.capacity_of_push? hpush]
      exact hfits.imp_right (Nat.le_trans hreach)
  | wake =>
    refine ⟨by simpa using h.kept, ?_⟩
    have hfits := h.fits
    rw [reach] at hfits
    simpa [reach] using hfits
  | start | finish | lock | halt | skip | lookBusy | lookIdle | rouse | clear | flag | checkFull
  | checkRoom | hear | fail =>
    exact ⟨h.kept, h.fits⟩

/-- The reader goes on, and takes no record or hands over the one that it has taken. -/
theorem of_reader (h : l.Conveys sent) (hover : l'.overflow = l.overflow)
    (hcapacity : l'.ring.capacity = l.ring.capacity) (hreach : l'.reach ≤ l.reach)
    (hentered : l'.entered = l.entered) : l'.Conveys sent where
  kept := by
    rw [hover]
    exact (congrArg (· ++ l.overflow.map (·.item)) hentered).trans h.kept
  fits := by
    rw [hover, hcapacity]
    exact h.fits.imp_right (Or.imp_right (Nat.le_trans hreach))

/-- So does the consumer. -/
theorem readerStep (h : l.Conveys sent) (hstaying : l.reader.isStaying = true)
    (hstep : ReaderStep l l') : l'.Conveys sent :=
  h.of_reader hstep.sameWriters.overflow_eq hstep.capacity_eq hstep.reach_le
    (hstep.entered_eq hstaying)

/-- So does a handler that returns. -/
theorem handle (h : l.Conveys sent) (hh : l.handle false false = some l') : l'.Conveys sent := by
  have hentered := entered_of_handle hh
  obtain ⟨_, _, _, _, -, rfl⟩ := handle_eq_some_of_returns hh
  exact h.of_reader rfl rfl (Nat.le_refl _) hentered

/-- So do all threads that were not asked for anything. -/
theorem advance (h : l.Conveys sent) (hle : l.ring.len ≤ l.ring.capacity)
    (hstaying : l.reader.isStaying = true) (hstep : Advance l l') : l'.Conveys sent := by
  cases hstep with
  | drain hstep => exact h.drainStep hle hstep
  | read _ _ hstep => exact h.readerStep hstaying hstep
  | giveUp _ hr => exact h.of_reader rfl rfl (Nat.le_refl _) (by rw [entered, entered, hr]; rfl)
  | handle _ hh => exact h.handle hh

/-- The order depends on the records and on what was handled. -/
theorem congr (h : l.Conveys sent) (hring : l.ring.Alike l'.ring) (hover : l'.overflow = l.overflow)
    (hhandled : l'.handled = l.handled) (hreader : l'.reader = l.reader) : l'.Conveys sent where
  kept := by rw [hhandled, hreader, hring.contents_eq, hover, h.kept]
  fits := by
    rw [reach, hover, hring.head_eq, hring.len_eq, hring.capacity_eq]
    exact h.fits

/-- The record goes to the back of the ring. -/
theorem store {item : α} (h : l.Conveys sent) (hle : l.ring.len ≤ l.ring.capacity)
    (hfits : l.ring.isEmpty = true ∨ l.ring.capacity.toNat ∣ 2 ^ 64 ∨
      l.ring.control.head.toNat + l.ring.len.toNat < 2 ^ 64)
    (hnil : l.overflow = []) (hpush : l.ring.push? item = some l'.ring) (hover : l'.overflow = [])
    (hhandled : l'.handled = l.handled) (hreader : l'.reader = l.reader) :
    l'.Conveys (sent ++ [item]) where
  kept := by
    rw [← h.kept, hhandled, hreader, Ring.contents_of_push?_of_fits hle hfits hpush, hover, hnil]
    simp
  fits := .inl hover

/-- The record goes behind those that are parked. -/
theorem park {record : Parked α} (h : l.Conveys sent)
    (hfits : l.ring.capacity.toNat ∣ 2 ^ 64 ∨ l.reach + 1 ≤ 2 ^ 64) (hring : l'.ring = l.ring)
    (hover : l'.overflow = l.overflow ++ [record]) (hhandled : l'.handled = l.handled)
    (hreader : l'.reader = l.reader) : l'.Conveys (sent ++ [record.item]) where
  kept := by
    rw [← h.kept, hhandled, hreader, hring, hover]
    simp
  fits := by
    have hreach : l'.reach = l.reach + 1 := by
      rw [reach, reach, hring, hover, List.length_append]
      rfl
    rw [hreach, hring]
    exact .inr hfits

end Conveys
/-- The drain thread does not overfill the ring. -/
theorem DrainStep.len_le (h : DrainStep l l') (hle : l.ring.len ≤ l.ring.capacity) :
    l'.ring.len ≤ l'.ring.capacity := by
  cases h with
  | move _ _ hpush => exact Ring.len_le_of_push? hle hpush
  | wake => simpa using hle
  | start | finish | lock | halt | skip | lookBusy | lookIdle | rouse | clear | flag | checkFull
  | checkRoom | hear | fail => exact hle

/-- The drain thread handles nothing. -/
theorem DrainStep.handled_eq (h : DrainStep l l') : l'.handled = l.handled := by
  cases h <;> simp [report]

/-- What has entered the ring has been handled, is being carried, or is still there. -/
theorem length_entered (l : Link α) :
    l.entered.length = l.handled.size + l.reader.carried.length + l.ring.len.toNat := by
  rw [entered, List.length_append, List.length_append, Array.length_toList, Ring.length_contents]

/-- A record that is moved enters the ring. -/
theorem DrainStep.length_entered (h : DrainStep l l') (hle : l.ring.len ≤ l.ring.capacity) :
    l'.entered.length + l'.overflow.length = l.entered.length + l.overflow.length := by
  rw [l.length_entered, l'.length_entered, h.handled_eq, h.reader_eq]
  cases h with
  | move _ hover hpush =>
    have hlen := Ring.toNat_len_of_push? hle hpush
    simp only [hlen, hover, List.length_cons]
    omega
  | wake | fail => simp [report]
  | start | finish | lock | halt | skip | lookBusy | lookIdle | rouse | clear | flag | checkFull
  | checkRoom | hear =>
    rfl
/-- A request adds its record to the ring or to those that are parked, if it sends one. -/
theorem fulfil_records (l : Link α) (r : Request α) :
    (r.items = [] ∧ l.ring.Alike (l.fulfil r).ring ∧ (l.fulfil r).overflow = l.overflow) ∨
    (∃ item stored, r.items = [item] ∧ l.overflow = [] ∧ l.ring.push? item = some stored ∧
      stored.Alike (l.fulfil r).ring ∧ (l.fulfil r).overflow = []) ∨
    ∃ record, r.items = [record.item] ∧ l.store? record.item = none ∧
      l.ring.Alike (l.fulfil r).ring ∧ (l.fulfil r).overflow = l.overflow ++ [record] := by
  rw [fulfil, Request.items]
  cases hr : r.sent? with
  | none => exact .inl ⟨rfl, l.alike_rouse, l.overflow_rouse⟩
  | some request =>
    obtain ⟨record, wakes⟩ := request
    rcases hs : l.store? record.item with - | stored
    · refine .inr (.inr ⟨record, rfl, hs, ?_⟩)
      simpa only [hs] using ⟨l.alike_park record, l.overflow_park record⟩
    · obtain ⟨hnil, hpush⟩ := store?_eq_some hs
      refine .inr (.inl ⟨record.item, stored, rfl, hnil, hpush, ?_⟩)
      simp only [hs]
      cases wakes with
      | false => exact ⟨.refl _, hnil⟩
      | true => exact ⟨alike_rouse { l with ring := stored }, (overflow_rouse _).trans hnil⟩

/-! ### Where the records are -/

/-- Where the records in `sent` are on a link, while a producer has the last ones of them, `held`,
in its hand. -/
structure Placed (ring : Ring α) (sent held : List α) (l : Link α) : Prop where
  len_le : l.ring.len ≤ l.ring.capacity
  capacity_eq : l.ring.capacity = ring.capacity
  reach_le : l.reach + held.length ≤ ring.control.tail.toNat + sent.length
  /-- As many records as were sent, even if the slots do not stay in turn. -/
  length_eq : l.entered.length + l.overflow.length + held.length = sent.length
  conveys : ring.Lasts sent.length → ∃ before, l.Conveys before ∧ before ++ held = sent

namespace Placed

variable {ring : Ring α} {sent held : List α}

/-- No record is stored or parked. -/
theorem of_entered (h : Placed ring sent held l) (hover : l'.overflow = l.overflow)
    (hcapacity : l'.ring.capacity = l.ring.capacity) (hle : l'.ring.len ≤ l'.ring.capacity)
    (hreach : l'.reach ≤ l.reach) (hentered : l'.entered = l.entered) :
    Placed ring sent held l' where
  len_le := hle
  capacity_eq := hcapacity.trans h.capacity_eq
  reach_le := (Nat.add_le_add_right hreach _).trans h.reach_le
  length_eq := by
    rw [hentered, hover]
    exact h.length_eq
  conveys hlasts := by
    obtain ⟨before, hbefore, hsent⟩ := h.conveys hlasts
    exact ⟨before, hbefore.of_reader hover hcapacity hreach hentered, hsent⟩

/-- Where the records are depends on the ring, the parked records and the consumer. -/
theorem congr (h : Placed ring sent held l) (hring : l.ring.Alike l'.ring)
    (hover : l'.overflow = l.overflow) (hhandled : l'.handled = l.handled)
    (hreader : l'.reader = l.reader) : Placed ring sent held l' := by
  refine h.of_entered hover hring.capacity_eq ?_ ?_ ?_
  · rw [hring.len_eq, hring.capacity_eq]
    exact h.len_le
  · rw [reach, reach, hring.head_eq, hring.len_eq, hover]
  · rw [entered, entered, hhandled, hreader, hring.contents_eq]

/-- The slots of the ring stay in turn as long as there are records to be sent. -/
theorem fits (h : Placed ring sent held l) (hlasts : ring.Lasts sent.length) :
    l.ring.capacity.toNat ∣ 2 ^ 64 ∨ l.reach + held.length ≤ 2 ^ 64 := by
  rw [h.capacity_eq]
  exact hlasts.imp_right (Nat.le_trans h.reach_le)

/-- More records are to be sent. -/
theorem send (h : Placed ring sent [] l) (items : List α) :
    Placed ring (sent ++ items) items l where
  len_le := h.len_le
  capacity_eq := h.capacity_eq
  reach_le := by
    rw [List.length_append, ← Nat.add_assoc]
    exact Nat.add_le_add_right h.reach_le _
  length_eq := by
    rw [List.length_append, ← h.length_eq, List.length_nil, Nat.add_zero]
  conveys hlasts := by
    obtain ⟨before, hbefore, hsent⟩ :=
      h.conveys (hlasts.mono (by rw [List.length_append]; exact Nat.le_add_right _ _))
    rw [List.append_nil] at hsent
    exact ⟨before, hbefore, by rw [hsent]⟩

/-- All records that were sent are on their way, as long as the slots stay in turn. -/
theorem conveys_all (h : Placed ring sent [] l) (hlasts : ring.Lasts sent.length) :
    l.Conveys sent := by
  obtain ⟨before, hbefore, hsent⟩ := h.conveys hlasts
  rwa [← hsent, List.append_nil]

/-- The record goes to the back of the ring. -/
theorem store {item : α} (h : Placed ring sent [item] l) (hnil : l.overflow = [])
    (hpush : l.ring.push? item = some l'.ring) (hover : l'.overflow = [])
    (hhandled : l'.handled = l.handled) (hreader : l'.reader = l.reader) :
    Placed ring sent [] l' := by
  have hlen := Ring.toNat_len_of_push? h.len_le hpush
  have hreach : l'.reach = l.reach + 1 := by
    rw [reach, reach, Ring.head_of_push? hpush, hlen, hover, hnil]
    rfl
  refine ⟨Ring.len_le_of_push? h.len_le hpush,
    (Ring.capacity_of_push? hpush).trans h.capacity_eq, ?_, ?_, fun hlasts ↦ ?_⟩
  · rw [hreach]
    exact h.reach_le
  · have hlength := h.length_eq
    rw [length_entered, hnil] at hlength
    rw [length_entered, hhandled, hreader, hlen, hover]
    simpa [Nat.add_assoc] using hlength
  · obtain ⟨before, hbefore, hsent⟩ := h.conveys hlasts
    have hfits : l.ring.capacity.toNat ∣ 2 ^ 64 ∨
        l.ring.control.head.toNat + l.ring.len.toNat < 2 ^ 64 :=
      (h.fits hlasts).imp_right fun hwrap ↦ by
        rw [reach, List.length_singleton] at hwrap
        omega
    exact ⟨_, hbefore.store h.len_le (.inr hfits) hnil hpush hover hhandled hreader,
      by rw [List.append_nil, hsent]⟩

/-- The record goes behind those that are parked. -/
theorem park {record : Parked α} (h : Placed ring sent [record.item] l) (hring : l'.ring = l.ring)
    (hover : l'.overflow = l.overflow ++ [record]) (hhandled : l'.handled = l.handled)
    (hreader : l'.reader = l.reader) : Placed ring sent [] l' := by
  have hreach : l'.reach = l.reach + 1 := by
    rw [reach, reach, hring, hover, List.length_append]
    rfl
  have hentered : l'.entered = l.entered := by rw [entered, entered, hhandled, hreader, hring]
  refine ⟨by rw [hring]; exact h.len_le, by rw [hring]; exact h.capacity_eq, ?_, ?_,
    fun hlasts ↦ ?_⟩
  · rw [hreach]
    exact h.reach_le
  · rw [hentered, hover, List.length_append, ← Nat.add_assoc]
    exact h.length_eq
  · obtain ⟨before, hbefore, hsent⟩ := h.conveys hlasts
    exact ⟨_, hbefore.park (h.fits hlasts) hring hover hhandled hreader,
      by rw [List.append_nil, hsent]⟩

/-- A request sends its record. -/
theorem fulfil (h : Placed ring sent [] l) (r : Request α) :
    Placed ring (sent ++ r.items) [] (l.fulfil r) := by
  have hsend := h.send r.items
  rcases l.fulfil_records r with ⟨hitems, hring, hover⟩ |
    ⟨item, stored, hitems, hnil, hpush, hring, hover⟩ | ⟨record, hitems, -, hring, hover⟩
  · rw [hitems] at hsend ⊢
    exact hsend.congr hring hover (l.handled_fulfil r) (l.reader_fulfil r)
  · rw [hitems] at hsend ⊢
    have hstored : Placed ring (sent ++ [item]) [] { l with ring := stored } :=
      hsend.store hnil hpush hnil rfl rfl
    exact hstored.congr hring (hover.trans hnil.symm) (l.handled_fulfil r) (l.reader_fulfil r)
  · rw [hitems] at hsend ⊢
    have hparked : Placed ring (sent ++ [record.item]) []
        { l with overflow := l.overflow ++ [record] } :=
      hsend.park rfl rfl rfl rfl
    exact hparked.congr hring hover (l.handled_fulfil r) (l.reader_fulfil r)

/-- A parked record that enters the ring keeps its place in the order. -/
theorem drainStep (h : Placed ring sent held l) (hstep : DrainStep l l') :
    Placed ring sent held l' where
  len_le := hstep.len_le h.len_le
  capacity_eq := hstep.capacity_eq.trans h.capacity_eq
  reach_le := (Nat.add_le_add_right (hstep.reach_le h.len_le) _).trans h.reach_le
  length_eq := by
    rw [hstep.length_entered h.len_le]
    exact h.length_eq
  conveys hlasts := by
    obtain ⟨before, hbefore, hsent⟩ := h.conveys hlasts
    exact ⟨before, hbefore.drainStep h.len_le hstep, hsent⟩

/-- So does a record that the consumer takes. -/
theorem readerStep (h : Placed ring sent held l) (hstaying : l.reader.isStaying = true)
    (hstep : ReaderStep l l') : Placed ring sent held l' :=
  h.of_entered hstep.sameWriters.overflow_eq hstep.capacity_eq (hstep.len_le h.len_le)
    hstep.reach_le (hstep.entered_eq hstaying)
/-- So does a record that has been handled. -/
theorem handle (h : Placed ring sent held l) (hh : l.handle false false = some l') :
    Placed ring sent held l' := by
  have hentered := entered_of_handle hh
  obtain ⟨_, _, _, _, -, rfl⟩ := handle_eq_some_of_returns hh
  exact h.of_entered rfl rfl h.len_le (Nat.le_refl _) hentered

/-- The records keep their places, whatever thread takes a step. -/
theorem advance (h : Placed ring sent held l) (hstaying : l.reader.isStaying = true)
    (hstep : Advance l l') : Placed ring sent held l' := by
  cases hstep with
  | drain hstep => exact h.drainStep hstep
  | read _ _ hstep => exact h.readerStep hstaying hstep
  | giveUp _ hr =>
    exact h.of_entered rfl rfl h.len_le (Nat.le_refl _) (by rw [entered, entered, hr]; rfl)
  | handle _ hh => exact h.handle hh

end Placed

end Link

end RingCall
