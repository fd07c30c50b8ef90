import RingCall.Proofs.Ring.Contents
import RingCall.Proofs.Steps
import RingCall.Ring.Handover

/-!
# Slots are handed over

A producer and a consumer use a ring without a lock, and either may go on between any two accesses
of the other. Still no slot is read before its record is complete or written before its record was
taken, and the records that are taken are those that were stored, in turn (`fetched_prefix`).

Each side owns one of the two counters. So its copy of that counter is up to date, and what it saw
of the other counter can only have become better since: a ring that was seen not to be full is not
full until the producer stores the tail, and one that was seen not to be empty is not empty until
the consumer stores the head (`Storing.Heeds`, `Fetching.Heeds`). The store of a counter is the
access that matters. At that moment the accesses amount to `Ring.push?` and `Ring.pop?`, which is
how `Sound` is preserved.
-/

namespace RingCall

variable {α : Type}

/-! ### What a ring that is used by others keeps -/

namespace Ring

variable {r r' : Ring α} {a : α}

/-- Writing a slot that belongs to no record held leaves the records alone. -/
theorem contents_write {n : Nat}
    (hslot : ∀ i < r.len.toNat, r.slot (r.control.head + UInt64.ofNat i) ≠ n) :
    ({ r with slots := fun i ↦ if i = n then a else r.slots i } : Ring α).contents = r.contents :=
  List.map_congr_left fun i hi ↦ if_neg (hslot i (List.mem_range.1 hi))

/-- A record that is in the slot of the tail already is pushed by storing the tail. -/
theorem push?_of_written (hroom : r.len ≠ r.capacity)
    (hslot : r.slots (r.slot r.control.tail) = a) :
    r.push? a = some { r with control := { r.control with tail := r.control.tail + 1 } } := by
  have hslots : (fun i ↦ if i = r.slot r.control.tail then a else r.slots i) = r.slots := by
    funext i
    split
    · next hi => rw [hi, hslot]
    · rfl
  rw [push?, if_neg fun hfull ↦ hroom (isFull_iff.1 hfull)]
  simp only [hslots]

/-- The record in the slot of the head is popped by storing the head. -/
theorem pop?_of_isEmpty_eq_false (he : r.isEmpty = false) :
    r.pop? = some (r.slots (r.slot r.control.head),
      { r with control := { r.control with head := r.control.head + 1 } }) :=
  if_neg (by rw [he]; exact Bool.false_ne_true)

/-- The slot of the head belongs to the first record held. -/
theorem head?_contents (he : r.isEmpty = false) :
    r.contents.head? = some (r.slots (r.slot r.control.head)) := by
  rw [contents_of_pop? (pop?_of_isEmpty_eq_false he), List.head?_cons]

/-- The slot that is read and the slot that is written are two as long as no counter wraps around.
-/
theorem slot_head_ne_slot_tail (hwrap : r.control.head.toNat + r.len.toNat < 2 ^ 64)
    (hlt : r.len < r.capacity) (he : r.isEmpty = false) :
    r.slot r.control.head ≠ r.slot r.control.tail := by
  have hpos : 0 < r.len.toNat := Nat.pos_of_ne_zero fun h0 ↦ by
    rw [isEmpty_iff.2 (UInt64.toNat_inj.1 h0)] at he
    cases he
  have hne := slot_ne_slot_tail hwrap hlt hpos
  rwa [show r.control.head + UInt64.ofNat 0 = r.control.head from UInt64.add_zero _] at hne

/-- A ring is not empty after a push. -/
theorem isEmpty_of_push? (hle : r.len ≤ r.capacity) (h : r.push? a = some r') :
    r'.isEmpty = false := by
  rw [Bool.eq_false_iff]
  intro he
  have hlen := toNat_len_of_push? hle h
  rw [isEmpty_iff.1 he] at hlen
  cases hlen

end Ring

/-- The counter whose slot a producer is about to write, or has written and not yet published. -/
def Storing.target? : Storing α → Option UInt64
  | writing _ tail | publishing _ tail => some tail
  | idle | loadingTail _ | loadingHead _ _ => none

/-- What a producer has seen and done still holds of the ring. -/
def Storing.Heeds (r : Ring α) : Storing α → Prop
  | idle | loadingTail _ => True
  | loadingHead _ tail => tail = r.control.tail
  | writing _ tail => tail = r.control.tail ∧ r.len ≠ r.capacity
  | publishing item tail =>
    tail = r.control.tail ∧ r.len ≠ r.capacity ∧ r.slots (r.slot tail) = item

/-- What a consumer has seen still holds of the ring. -/
def Fetching.Heeds (r : Ring α) : Fetching α → Prop
  | idle | loadingHead => True
  | loadingTail head => head = r.control.head
  | reading head => head = r.control.head ∧ r.isEmpty = false
  | releasing item head =>
    head = r.control.head ∧ r.isEmpty = false ∧ item = r.slots (r.slot head)

/-- Whoever is about to write a slot, or has written it, relies on the tail and on room. -/
theorem Storing.Heeds.of_target? {p : Storing α} {r : Ring α} {tail : UInt64} (h : p.Heeds r)
    (ht : p.target? = some tail) : tail = r.control.tail ∧ r.len ≠ r.capacity := by
  cases p with
  | idle | loadingTail | loadingHead => cases ht
  | writing item =>
    cases ht
    exact h
  | publishing item =>
    cases ht
    exact ⟨h.1, h.2.1⟩

/-- A producer does not mind that the ring gets less full. -/
theorem Storing.Heeds.congr {p : Storing α} {r r' : Ring α} (h : p.Heeds r)
    (htail : r'.control.tail = r.control.tail) (hroom : r.len ≠ r.capacity → r'.len ≠ r'.capacity)
    (hslot : r'.slots (r'.slot r.control.tail) = r.slots (r.slot r.control.tail)) : p.Heeds r' := by
  cases p with
  | idle | loadingTail => trivial
  | loadingHead item tail => exact h.trans htail.symm
  | writing item tail => exact ⟨h.1.trans htail.symm, hroom h.2⟩
  | publishing item tail =>
    obtain ⟨rfl, hne, hitem⟩ := h
    exact ⟨htail.symm, hroom hne, hslot.trans hitem⟩

/-- A consumer does not mind that the ring gets less empty. -/
theorem Fetching.Heeds.congr {c : Fetching α} {r r' : Ring α} (h : c.Heeds r)
    (hhead : r'.control.head = r.control.head) (hmore : r.isEmpty = false → r'.isEmpty = false)
    (hslot : r.isEmpty = false →
      r'.slots (r'.slot r.control.head) = r.slots (r.slot r.control.head)) : c.Heeds r' := by
  cases c with
  | idle | loadingHead => trivial
  | loadingTail head => exact h.trans hhead.symm
  | reading head => exact ⟨h.1.trans hhead.symm, hmore h.2⟩
  | releasing item head =>
    obtain ⟨rfl, he, hitem⟩ := h
    exact ⟨hhead.symm, hmore he, hitem.trans (hslot he).symm⟩

namespace Handover

variable {ring : Ring α} {h h' : Handover α}

/-- **The invariant.** Nothing that was stored is lost or out of turn, and either side may rely on
what it has seen. -/
structure Sound (ring : Ring α) (h : Handover α) : Prop where
  capacity_eq : h.ring.capacity = ring.capacity
  len_le : h.ring.len ≤ h.ring.capacity
  kept : h.fetched ++ h.ring.contents = ring.contents ++ h.stored
  /-- The head counts the records taken. -/
  head_eq : h.ring.control.head.toNat = ring.control.head.toNat + h.fetched.length
  producer : h.producer.Heeds h.ring
  consumer : h.consumer.Heeds h.ring

/-- No counter has wrapped around, if the records that were stored do not reach so far. -/
theorem Sound.lt_two_pow (hs : Sound ring h)
    (hwrap : ring.control.head.toNat + (ring.contents ++ h.stored).length < 2 ^ 64) :
    h.ring.control.head.toNat + h.ring.len.toNat < 2 ^ 64 := by
  rw [← hs.kept, List.length_append, Ring.length_contents] at hwrap
  rw [hs.head_eq]
  omega

/-! ### Each access preserves it -/

/-- An access of the producer keeps the handover sound. -/
theorem Sound.stepProducer (hs : Sound ring h)
    (hwrap : h.ring.control.head.toNat + h.ring.len.toNat < 2 ^ 64)
    (hstep : h.stepProducer = some h') : Sound ring h' := by
  have hheeds := hs.producer
  rw [Handover.stepProducer] at hstep
  cases hp : h.producer with
  | idle => simp [hp] at hstep
  | loadingTail item =>
    simp only [hp, Option.some.injEq] at hstep
    subst hstep
    exact ⟨hs.capacity_eq, hs.len_le, hs.kept, hs.head_eq, rfl, hs.consumer⟩
  | loadingHead item tail =>
    rw [hp] at hheeds
    obtain rfl : tail = h.ring.control.tail := hheeds
    simp only [hp, Option.some.injEq] at hstep
    subst hstep
    refine ⟨hs.capacity_eq, hs.len_le, hs.kept, hs.head_eq, ?_, hs.consumer⟩
    show Storing.Heeds h.ring (if _ then _ else _)
    split
    · trivial
    · next hfull => exact ⟨rfl, hfull⟩
  | writing item tail =>
    rw [hp] at hheeds
    obtain ⟨rfl, hne⟩ := hheeds
    simp only [hp, Option.some.injEq] at hstep
    subst hstep
    -- the slot is that of no record held, and so not the one that is being read
    have hlt : h.ring.len < h.ring.capacity := UInt64.lt_of_le_of_ne hs.len_le hne
    have hcontents := Ring.contents_write (a := item) fun i hi ↦ Ring.slot_ne_slot_tail hwrap hlt hi
    refine ⟨hs.capacity_eq, hs.len_le, ?_, hs.head_eq, ⟨rfl, hne, if_pos rfl⟩, ?_⟩
    · rw [← hs.kept]
      exact congrArg (h.fetched ++ ·) hcontents
    · exact hs.consumer.congr rfl id fun he ↦ if_neg (Ring.slot_head_ne_slot_tail hwrap hlt he)
  | publishing item tail =>
    rw [hp] at hheeds
    obtain ⟨rfl, hne, hitem⟩ := hheeds
    simp only [hp, Option.some.injEq] at hstep
    subst hstep
    -- the record is in its slot already, so that the ring is as after a push
    have hpush := Ring.push?_of_written hne hitem
    have hlt : h.ring.len < h.ring.capacity := UInt64.lt_of_le_of_ne hs.len_le hne
    have hcontents := Ring.contents_of_push? hs.len_le hpush fun i hi ↦
      Ring.slot_ne_slot_tail hwrap hlt hi
    refine ⟨hs.capacity_eq, Ring.len_le_of_push? hs.len_le hpush, ?_, hs.head_eq, trivial, ?_⟩
    · rw [hcontents, ← List.append_assoc, hs.kept, List.append_assoc]
    · exact hs.consumer.congr rfl (fun _ ↦ Ring.isEmpty_of_push? hs.len_le hpush) fun _ ↦ rfl

/-- An access of the consumer keeps the handover sound. -/
theorem Sound.stepConsumer (hs : Sound ring h)
    (hwrap : h.ring.control.head.toNat + h.ring.len.toNat < 2 ^ 64)
    (hstep : h.stepConsumer = some h') : Sound ring h' := by
  have hheeds := hs.consumer
  rw [Handover.stepConsumer] at hstep
  cases hc : h.consumer with
  | idle => simp [hc] at hstep
  | loadingHead =>
    simp only [hc, Option.some.injEq] at hstep
    subst hstep
    exact ⟨hs.capacity_eq, hs.len_le, hs.kept, hs.head_eq, hs.producer, rfl⟩
  | loadingTail head =>
    rw [hc] at hheeds
    obtain rfl : head = h.ring.control.head := hheeds
    simp only [hc, Option.some.injEq] at hstep
    subst hstep
    refine ⟨hs.capacity_eq, hs.len_le, hs.kept, hs.head_eq, hs.producer, ?_⟩
    show Fetching.Heeds h.ring (if _ then _ else _)
    split
    · trivial
    · next hmore => exact ⟨rfl, beq_false_of_ne hmore⟩
  | reading head =>
    rw [hc] at hheeds
    simp only [hc, Option.some.injEq] at hstep
    subst hstep
    exact ⟨hs.capacity_eq, hs.len_le, hs.kept, hs.head_eq, hs.producer, hheeds.1, hheeds.2, rfl⟩
  | releasing item head =>
    rw [hc] at hheeds
    obtain ⟨rfl, he, rfl⟩ := hheeds
    simp only [hc, Option.some.injEq] at hstep
    subst hstep
    -- storing the head is what takes the record out
    have hpop := Ring.pop?_of_isEmpty_eq_false he
    have hlen := Ring.toNat_len_of_pop? hpop
    have hkept := hs.kept
    rw [Ring.contents_of_pop? hpop] at hkept
    refine ⟨hs.capacity_eq, Ring.len_le_of_pop? hs.len_le hpop, ?_, ?_, ?_, trivial⟩
    · rw [← hkept, List.append_assoc]
      rfl
    · show (h.ring.control.head + 1).toNat = _
      rw [UInt64.toNat_add, UInt64.toNat_one, Nat.mod_eq_of_lt (by omega), hs.head_eq,
        List.length_append, List.length_singleton, Nat.add_assoc]
    · -- there is more room than the producer has seen
      refine hs.producer.congr rfl (fun _ hfull ↦ ?_) rfl
      have hle := UInt64.le_iff_toNat_le.1 hs.len_le
      rw [hfull] at hlen
      change h.ring.len.toNat = h.ring.capacity.toNat + 1 at hlen
      omega

/-- Any access keeps the handover sound. -/
theorem Sound.step (hs : Sound ring h)
    (hwrap : h.ring.control.head.toNat + h.ring.len.toNat < 2 ^ 64) {a : Access α}
    (hstep : h.step a = some h') : Sound ring h' := by
  cases a with
  | produce => exact hs.stepProducer hwrap hstep
  | consume => exact hs.stepConsumer hwrap hstep
  | store item =>
    simp only [Handover.step] at hstep
    split at hstep
    · obtain rfl := Option.some.inj hstep
      exact ⟨hs.capacity_eq, hs.len_le, hs.kept, hs.head_eq, trivial, hs.consumer⟩
    · cases hstep
  | fetch =>
    simp only [Handover.step] at hstep
    split at hstep
    · obtain rfl := Option.some.inj hstep
      exact ⟨hs.capacity_eq, hs.len_le, hs.kept, hs.head_eq, hs.producer, trivial⟩
    · cases hstep
  | look =>
    simp only [Handover.step] at hstep
    split at hstep
    · obtain rfl := Option.some.inj hstep
      exact ⟨hs.capacity_eq, hs.len_le, hs.kept, hs.head_eq, hs.producer, hs.consumer⟩
    · cases hstep
  | observe =>
    simp only [Handover.step, stepObserver] at hstep
    split at hstep
    · cases hstep
    all_goals
      obtain rfl := Option.some.inj hstep
      exact ⟨hs.capacity_eq, hs.len_le, hs.kept, hs.head_eq, hs.producer, hs.consumer⟩

/-- What was stored stays stored. -/
theorem stored_prefix_step {a : Access α} (hstep : h.step a = some h') :
    h.stored <+: h'.stored := by
  have hsame (heq : h'.stored = h.stored) : h.stored <+: h'.stored := heq ▸ List.prefix_refl _
  cases a with
  | produce =>
    simp only [Handover.step, Handover.stepProducer] at hstep
    split at hstep <;> cases hstep <;> try exact hsame rfl
    exact List.prefix_append _ _
  | consume =>
    simp only [Handover.step, Handover.stepConsumer] at hstep
    split at hstep <;> cases hstep <;> exact hsame rfl
  | store | fetch | look | observe =>
    simp only [Handover.step, stepObserver] at hstep
    split at hstep <;> cases hstep <;> exact hsame rfl

/-- A handover is sound before the first access. -/
theorem sound_atRest (hle : ring.len ≤ ring.capacity) : Sound ring (atRest ring) :=
  ⟨rfl, hle, (List.append_nil _).symm, rfl, trivial, trivial⟩

/-- **A handover is sound after any accesses** while no counter wraps around. -/
theorem sound_run? {accesses : List (Access α)} (hle : ring.len ≤ ring.capacity)
    (hrun : (atRest ring).run? accesses = some h)
    (hwrap : ring.control.head.toNat + (ring.contents ++ h.stored).length < 2 ^ 64) :
    Sound ring h := by
  -- the bound holds of each earlier state, at which no more was stored
  let P : Handover α → Prop := fun h ↦
    ring.control.head.toNat + (ring.contents ++ h.stored).length < 2 ^ 64 → Sound ring h
  have hP : P h := by
    refine foldlM_preserves (fun a _ s t hstep hs hwrap ↦ ?_) hrun fun _ ↦ sound_atRest hle
    have hbefore := (stored_prefix_step hstep).length_le
    rw [List.length_append] at hwrap
    have hfits : ring.control.head.toNat + (ring.contents ++ s.stored).length < 2 ^ 64 := by
      rw [List.length_append]
      omega
    exact (hs hfits).step ((hs hfits).lt_two_pow hfits) hstep
  exact hP hwrap

/-- **Slots are handed over.** While no counter wraps around, whoever goes on when: the records
taken are those that the ring held and that were stored, in turn, up to the ones that it still
holds. A slot that is about to be read has the record that is next in turn, and what was read is
that record. The slot of a producer that is about to write, or has written and not yet published, is
not the one being read and is that of no record whose head has not been stored. -/
theorem fetched_prefix {accesses : List (Access α)} (hle : ring.len ≤ ring.capacity)
    (hrun : (atRest ring).run? accesses = some h)
    (hwrap : ring.control.head.toNat + (ring.contents ++ h.stored).length < 2 ^ 64) :
    let stored := ring.contents ++ h.stored
    h.fetched <+: stored ∧ h.fetched ++ h.ring.contents = stored ∧
    (∀ head, h.consumer = .reading head →
      stored[h.fetched.length]? = some (h.ring.slots (h.ring.slot head)) ∧
      ∀ tail, h.producer.target? = some tail → h.ring.slot head ≠ h.ring.slot tail) ∧
    (∀ item head, h.consumer = .releasing item head → stored[h.fetched.length]? = some item) ∧
    ∀ tail, h.producer.target? = some tail → ∀ i < h.ring.len.toNat,
      h.ring.slot (h.ring.control.head + UInt64.ofNat i) ≠ h.ring.slot tail := by
  intro stored
  have hs := sound_run? hle hrun hwrap
  have hfits := hs.lt_two_pow hwrap
  have hconsumer := hs.consumer
  -- the producer writes behind the records, and only while there is room
  have htarget : ∀ tail, h.producer.target? = some tail →
      tail = h.ring.control.tail ∧ h.ring.len < h.ring.capacity := by
    intro tail ht
    obtain ⟨htail, hroom⟩ := hs.producer.of_target? ht
    exact ⟨htail, UInt64.lt_of_le_of_ne hs.len_le hroom⟩
  -- the first record of the ring is the next one in turn
  have hnext : h.ring.isEmpty = false →
      stored[h.fetched.length]? = some (h.ring.slots (h.ring.slot h.ring.control.head)) := by
    intro he
    show (ring.contents ++ h.stored)[h.fetched.length]? = _
    rw [← hs.kept, List.getElem?_append_right (Nat.le_refl _), Nat.sub_self,
      ← List.head?_eq_getElem?, Ring.head?_contents he]
  refine ⟨⟨_, hs.kept⟩, hs.kept, ?_, ?_, ?_⟩
  · intro head hc
    rw [hc] at hconsumer
    obtain ⟨rfl, he⟩ := hconsumer
    refine ⟨hnext he, fun tail ht ↦ ?_⟩
    obtain ⟨rfl, hlt⟩ := htarget tail ht
    exact Ring.slot_head_ne_slot_tail hfits hlt he
  · intro item head hc
    rw [hc] at hconsumer
    obtain ⟨rfl, he, rfl⟩ := hconsumer
    exact hnext he
  · intro tail ht i hi
    obtain ⟨rfl, hlt⟩ := htarget tail ht
    exact Ring.slot_ne_slot_tail hfits hlt hi

/-- Two records pass a ring for two, one after the other. A third one is then stored, and while a
fourth is about to be written the third is about to be read. -/
def fourthBesideThird : List (Access Nat) :=
  [.store 11, .produce, .produce, .produce, .produce, .fetch, .consume, .consume,
    .store 12, .consume, .produce, .produce, .consume, .produce, .produce, .fetch, .consume,
    .consume, .consume, .consume, .store 13, .produce, .produce, .produce, .produce, .store 14,
    .fetch, .produce, .consume, .produce, .consume]

/-- A fourth record is written while the third one is being read. -/
theorem fetched_prefix_fourthBesideThird :
    ∃ h, (atRest (Ring.blank 2 (by decide))).run? fourthBesideThird = some h ∧
      h.stored = [11, 12, 13] ∧ h.fetched <+: [11, 12, 13] ∧
      h.consumer = .reading 2 ∧ h.producer = .writing 14 3 ∧
      [11, 12, 13][h.fetched.length]? = some (h.ring.slots (h.ring.slot 2)) ∧
      h.ring.slot 2 ≠ h.ring.slot 3 := by
  have hle : (Ring.blank 2 (by decide) : Ring Nat).len ≤ 2 := by decide
  let h : Handover Nat :=
    ((atRest (Ring.blank 2 (by decide))).run? fourthBesideThird).get (by decide)
  have hrun : (atRest (Ring.blank 2 (by decide))).run? fourthBesideThird = some h :=
    (Option.some_get _).symm
  have hwrap : 0 + ([] ++ h.stored).length < 2 ^ 64 := by decide
  obtain ⟨htaken, -, hreading, -, -⟩ := fetched_prefix hle hrun hwrap
  obtain ⟨hnext, hapart⟩ := hreading 2 rfl
  exact ⟨h, hrun, rfl, htaken, rfl, rfl, hnext, hapart 3 rfl⟩

end Handover

end RingCall
