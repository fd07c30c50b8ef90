import Mathlib.Data.List.Induction
import RingCall.Proofs.Ring.Handover

/-!
# Lengths seen from outside

An observer loads the tail of a ring and then the head, and others go on in between. Records that
are stored in between do not show, since the tail was loaded before them. Records that are taken in
between do: each makes the length that is seen one less, counted down from the length at the moment
of the first load (`Handover.seen_run?`). So an observer sees what is left of the records that it
found, and this is no more than the capacity as long as any is left. When the consumer gets past the
tail that was loaded, the distance wraps around, and what is seen is close to the size of a word
(`Handover.seen_overtaken`).

Only the counters matter for this. They keep their distance whether or not they wrap around. So,
other than in `Handover.Sound`, which is about the records as well, nothing is assumed about where
they start.
-/

namespace RingCall

variable {α : Type}

/-- What a consumer has seen of the counters still holds of the ring. -/
def Fetching.Follows (r : Ring α) : Fetching α → Prop
  | idle | loadingHead => True
  | loadingTail head => head = r.control.head
  | reading head | releasing _ head => head = r.control.head ∧ r.isEmpty = false

/-- A consumer does not mind that the ring gets less empty. -/
theorem Fetching.Follows.congr {c : Fetching α} {r r' : Ring α} (h : c.Follows r)
    (hhead : r'.control.head = r.control.head) (hmore : r.isEmpty = false → r'.isEmpty = false) :
    c.Follows r' := by
  cases c with
  | idle | loadingHead => trivial
  | loadingTail head => exact h.trans hhead.symm
  | reading head => exact ⟨h.1.trans hhead.symm, hmore h.2⟩
  | releasing item head => exact ⟨h.1.trans hhead.symm, hmore h.2⟩

/-- After a record was taken there is more room than the producer has seen. -/
theorem Storing.Heeds.of_pop? {p : Storing α} {r r' : Ring α} {a : α} (h : p.Heeds r)
    (hle : r.len ≤ r.capacity) (hpop : r.pop? = some (a, r')) : p.Heeds r' := by
  obtain ⟨-, -, rfl⟩ := Ring.pop?_eq_some hpop
  refine h.congr rfl (fun _ hfull ↦ ?_) rfl
  have hlen := Ring.toNat_len_of_pop? hpop
  have hle := UInt64.le_iff_toNat_le.1 hle
  rw [hfull] at hlen
  change r.len.toNat = r.capacity.toNat + 1 at hlen
  omega

namespace Handover

variable {ring : Ring α} {h h' : Handover α} {a : Access α}

/-- **The counters are in order.** No more records are held than there is room for, the head counts
those that were taken, and either side may rely on what it has seen of the counters. -/
structure Metered (ring : Ring α) (h : Handover α) : Prop where
  capacity_eq : h.ring.capacity = ring.capacity
  len_le : h.ring.len ≤ h.ring.capacity
  head_eq : h.ring.control.head = ring.control.head + UInt64.ofNat h.fetched.length
  producer : h.producer.Heeds h.ring
  consumer : h.consumer.Follows h.ring

/-- A handover is metered before the first access. -/
theorem metered_atRest (hle : ring.len ≤ ring.capacity) : Metered ring (atRest ring) :=
  ⟨rfl, hle, (UInt64.add_zero _).symm, trivial, trivial⟩

/-- An access of the producer keeps it metered. -/
theorem Metered.stepProducer (hs : Metered ring h) (hstep : h.stepProducer = some h') :
    Metered ring h' := by
  have hheeds := hs.producer
  rw [Handover.stepProducer] at hstep
  cases hp : h.producer with
  | idle => simp [hp] at hstep
  | loadingTail item =>
    simp only [hp, Option.some.injEq] at hstep
    subst hstep
    exact ⟨hs.capacity_eq, hs.len_le, hs.head_eq, rfl, hs.consumer⟩
  | loadingHead item tail =>
    rw [hp] at hheeds
    obtain rfl : tail = h.ring.control.tail := hheeds
    simp only [hp, Option.some.injEq] at hstep
    subst hstep
    refine ⟨hs.capacity_eq, hs.len_le, hs.head_eq, ?_, hs.consumer⟩
    show Storing.Heeds h.ring (if _ then _ else _)
    split
    · trivial
    · next hfull => exact ⟨rfl, hfull⟩
  | writing item tail =>
    rw [hp] at hheeds
    obtain ⟨rfl, hne⟩ := hheeds
    simp only [hp, Option.some.injEq] at hstep
    subst hstep
    exact ⟨hs.capacity_eq, hs.len_le, hs.head_eq, ⟨rfl, hne, if_pos rfl⟩, hs.consumer.congr rfl id⟩
  | publishing item tail =>
    rw [hp] at hheeds
    obtain ⟨rfl, hne, hitem⟩ := hheeds
    simp only [hp, Option.some.injEq] at hstep
    subst hstep
    -- the record is in its slot already, so that the ring is as after a push
    have hpush := Ring.push?_of_written hne hitem
    exact ⟨hs.capacity_eq, Ring.len_le_of_push? hs.len_le hpush, hs.head_eq, trivial,
      hs.consumer.congr rfl fun _ ↦ Ring.isEmpty_of_push? hs.len_le hpush⟩

/-- An access of the consumer keeps it metered. -/
theorem Metered.stepConsumer (hs : Metered ring h) (hstep : h.stepConsumer = some h') :
    Metered ring h' := by
  have hfollows := hs.consumer
  rw [Handover.stepConsumer] at hstep
  cases hc : h.consumer with
  | idle => simp [hc] at hstep
  | loadingHead =>
    simp only [hc, Option.some.injEq] at hstep
    subst hstep
    exact ⟨hs.capacity_eq, hs.len_le, hs.head_eq, hs.producer, rfl⟩
  | loadingTail head =>
    rw [hc] at hfollows
    obtain rfl : head = h.ring.control.head := hfollows
    simp only [hc, Option.some.injEq] at hstep
    subst hstep
    refine ⟨hs.capacity_eq, hs.len_le, hs.head_eq, hs.producer, ?_⟩
    show Fetching.Follows h.ring (if _ then _ else _)
    split
    · trivial
    · next hmore => exact ⟨rfl, beq_false_of_ne hmore⟩
  | reading head =>
    rw [hc] at hfollows
    simp only [hc, Option.some.injEq] at hstep
    subst hstep
    exact ⟨hs.capacity_eq, hs.len_le, hs.head_eq, hs.producer, hfollows⟩
  | releasing item head =>
    rw [hc] at hfollows
    obtain ⟨rfl, he⟩ := hfollows
    simp only [hc, Option.some.injEq] at hstep
    subst hstep
    have hpop := Ring.pop?_of_isEmpty_eq_false he
    refine ⟨hs.capacity_eq, Ring.len_le_of_pop? hs.len_le hpop, ?_,
      hs.producer.of_pop? hs.len_le hpop, trivial⟩
    show h.ring.control.head + 1 = _
    rw [hs.head_eq, List.length_append, List.length_singleton, UInt64.ofNat_add, UInt64.add_assoc]
    rfl

/-- Each access leaves the counters in order. -/
theorem Metered.step (hs : Metered ring h) (hstep : h.step a = some h') : Metered ring h' := by
  cases a with
  | produce => exact hs.stepProducer hstep
  | consume => exact hs.stepConsumer hstep
  | store item =>
    simp only [Handover.step] at hstep
    split at hstep
    · obtain rfl := Option.some.inj hstep
      exact ⟨hs.capacity_eq, hs.len_le, hs.head_eq, trivial, hs.consumer⟩
    · cases hstep
  | fetch =>
    simp only [Handover.step] at hstep
    split at hstep
    · obtain rfl := Option.some.inj hstep
      exact ⟨hs.capacity_eq, hs.len_le, hs.head_eq, hs.producer, trivial⟩
    · cases hstep
  | look | observe =>
    simp only [Handover.step, stepObserver] at hstep
    split at hstep <;> cases hstep <;>
      exact ⟨hs.capacity_eq, hs.len_le, hs.head_eq, hs.producer, hs.consumer⟩

/-- A handover is metered after any accesses. -/
theorem metered_run? {accesses : List (Access α)} (hle : ring.len ≤ ring.capacity)
    (hrun : (atRest ring).run? accesses = some h) : Metered ring h :=
  foldlM_preserves (fun _ _ _ _ hstep hs ↦ hs.step hstep) hrun (metered_atRest hle)

/-- What was taken stays taken. -/
theorem fetched_prefix_step (hstep : h.step a = some h') : h.fetched <+: h'.fetched := by
  cases a with
  | consume =>
    simp only [Handover.step, Handover.stepConsumer] at hstep
    split at hstep <;> cases hstep <;> try exact List.prefix_refl _
    exact List.prefix_append _ _
  | produce =>
    simp only [Handover.step, Handover.stepProducer] at hstep
    split at hstep <;> cases hstep <;> exact List.prefix_refl _
  | store | fetch | look | observe =>
    simp only [Handover.step, stepObserver] at hstep
    split at hstep <;> cases hstep <;> exact List.prefix_refl _

/-- What has been fetched before some accesses has been fetched after them. -/
theorem fetched_prefix_run? {accesses : List (Access α)} (hrun : h.run? accesses = some h') :
    h.fetched <+: h'.fetched :=
  foldlM_preserves (P := fun t ↦ h.fetched <+: t.fetched)
    (fun _ _ _ _ hstep hs ↦ hs.trans (fetched_prefix_step hstep)) hrun (List.prefix_refl _)

/-! ### What an observer has done -/

/-- The last of some accesses. -/
theorem run?_concat_eq_some {accesses : List (Access α)} :
    h.run? (accesses ++ [a]) = some h' ↔ ∃ mid, h.run? accesses = some mid ∧
    mid.step a = some h' := by
  have hconcat : h.run? (accesses ++ [a]) = (h.run? accesses).bind (·.step a) :=
    List.foldlM_append.trans (congrArg _ (funext fun mid ↦ bind_pure (mid.step a)))
  rw [hconcat, Option.bind_eq_some_iff]

/-- An observer that goes on has a load to do. -/
theorem step_observe_eq_some (hstep : h.step .observe = some h') :
    (h.observer = .loadingTail ∧ h'.observer = .loadingHead h.ring.control.tail) ∨
      ∃ tail, h.observer = .loadingHead tail ∧ h'.observer =
        .idle (some (tail - h.ring.control.head)) := by
  simp only [Handover.step, stepObserver] at hstep
  split at hstep
  · cases hstep
  · next hobs =>
    obtain rfl := Option.some.inj hstep
    exact .inl ⟨hobs, rfl⟩
  · next tail hobs =>
    obtain rfl := Option.some.inj hstep
    exact .inr ⟨tail, hobs, rfl⟩

/-- An observer that looks has not loaded anything yet. -/
theorem observer_of_look (hstep : h.step .look = some h') : h'.observer = .loadingTail := by
  simp only [Handover.step] at hstep
  split at hstep
  · obtain rfl := Option.some.inj hstep
    rfl
  · cases hstep

/-- The others leave an observer alone. -/
theorem observer_of_other (hlook : a ≠ .look) (hobserve : a ≠ .observe)
    (hstep : h.step a = some h') :
    h'.observer = h.observer := by
  cases a with
  | look => exact absurd rfl hlook
  | observe => exact absurd rfl hobserve
  | produce =>
    simp only [Handover.step, Handover.stepProducer] at hstep
    split at hstep <;> cases hstep <;> rfl
  | consume =>
    simp only [Handover.step, Handover.stepConsumer] at hstep
    split at hstep <;> cases hstep <;> rfl
  | store | fetch =>
    simp only [Handover.step] at hstep
    split at hstep
    · obtain rfl := Option.some.inj hstep
      rfl
    · cases hstep

/-- Who is about to load the head has loaded the tail at an earlier moment. -/
theorem exists_first_load {accesses : List (Access α)} {tail : UInt64}
    (hrun : (atRest ring).run? accesses = some h) (hobs : h.observer = .loadingHead tail) :
    ∃ before between h₁, accesses = before ++ .observe :: between ∧ .observe ∉ between ∧
      (atRest ring).run? before = some h₁ ∧ h₁.observer = .loadingTail ∧
      h₁.run? (.observe :: between) = some h ∧ tail = h₁.ring.control.tail := by
  induction accesses using List.reverseRecOn generalizing h with
  | nil =>
    obtain rfl := Option.some.inj hrun
    cases hobs
  | append_singleton accesses a ih =>
    obtain ⟨mid, hmid, hstep⟩ := run?_concat_eq_some.1 hrun
    by_cases hobserve : a = .observe
    · subst hobserve
      rcases step_observe_eq_some hstep with ⟨hload, htail⟩ | ⟨_, -, hidle⟩
      · rw [htail] at hobs
        -- the tail was loaded just now
        have hlast : mid.run? ([] ++ [.observe]) = some h := run?_concat_eq_some.2 ⟨mid, rfl, hstep⟩
        exact ⟨accesses, [], mid, rfl, List.not_mem_nil, hmid, hload, hlast,
          (Sizing.loadingHead.inj hobs).symm⟩
      · rw [hidle] at hobs
        cases hobs
    · by_cases hlook : a = .look
      · subst hlook
        rw [observer_of_look hstep] at hobs
        cases hobs
      · rw [observer_of_other hlook hobserve hstep] at hobs
        obtain ⟨before, between, h₁, rfl, hnot, hbefore, hload, hbetween, htail⟩ := ih hmid hobs
        refine ⟨before, between ++ [a], h₁, by simp, ?_, hbefore, hload, ?_, htail⟩
        · simp [hnot, Ne.symm hobserve]
        · exact run?_concat_eq_some.2 ⟨mid, hbetween, hstep⟩

/-- Who has seen a length has loaded the head at an earlier moment. -/
theorem exists_second_load {accesses : List (Access α)} {n : UInt64}
    (hrun : (atRest ring).run? accesses = some h) (hobs : h.observer = .idle (some n)) :
    ∃ before after h₂ tail, accesses = before ++ .observe :: after ∧
    (atRest ring).run? before = some h₂ ∧
      h₂.observer = .loadingHead tail ∧ n = tail - h₂.ring.control.head := by
  induction accesses using List.reverseRecOn generalizing h with
  | nil =>
    obtain rfl := Option.some.inj hrun
    cases hobs
  | append_singleton accesses a ih =>
    obtain ⟨mid, hmid, hstep⟩ := run?_concat_eq_some.1 hrun
    by_cases hobserve : a = .observe
    · subst hobserve
      rcases step_observe_eq_some hstep with ⟨-, hload⟩ | ⟨tail, hload, hidle⟩
      · rw [hload] at hobs
        cases hobs
      · rw [hidle] at hobs
        exact ⟨accesses, [], mid, tail, rfl, hmid, hload,
          (Option.some.inj (Sizing.idle.inj hobs)).symm⟩
    · by_cases hlook : a = .look
      · subst hlook
        rw [observer_of_look hstep] at hobs
        cases hobs
      · rw [observer_of_other hlook hobserve hstep] at hobs
        obtain ⟨before, after, h₂, tail, rfl, hbefore, hload, hn⟩ := ih hmid hobs
        exact ⟨before, after ++ [a], h₂, tail, by simp, hbefore, hload, hn⟩

/-- Counting down from a length stays within a bound of it just as long as nothing is left to wrap
around. -/
theorem sub_ofNat_le_iff {len capacity : UInt64} {n : Nat} (hle : len ≤ capacity)
    (hn : n + capacity.toNat < 2 ^ 64) : len - UInt64.ofNat n ≤ capacity ↔ n ≤ len.toNat := by
  rw [UInt64.le_iff_toNat_le] at hle
  have hword : (UInt64.ofNat n).toNat = n := UInt64.toNat_ofNat_of_lt' (show n < 2 ^ 64 by omega)
  rw [UInt64.le_iff_toNat_le, UInt64.toNat_sub, hword]
  omega

/-- **What an observer sees** is the length at the moment of its first load, less one for each
record that was taken between its two loads, modulo the size of a word. So it is no more than the
capacity just if no more records were taken than had been there, unless so many were taken that the
distance wrapped around altogether. -/
theorem seen_run? {accesses : List (Access α)} {n : UInt64} (hle : ring.len ≤ ring.capacity)
    (hrun : (atRest ring).run? accesses = some h) (hseen : h.observer = .idle (some n)) :
    ∃ before between after h₁ h₂ taken,
      accesses = before ++ .observe :: between ++ .observe :: after ∧ .observe ∉ between ∧
      (atRest ring).run? before = some h₁ ∧ h₁.observer = .loadingTail ∧
      h₁.run? (.observe :: between) = some h₂ ∧ h₂.fetched = h₁.fetched ++ taken ∧
      n = h₁.ring.len - UInt64.ofNat taken.length ∧
      (taken.length + ring.capacity.toNat < 2 ^ 64 →
        (n ≤ ring.capacity ↔ taken.length ≤ h₁.ring.len.toNat)) := by
  obtain ⟨first, after, h₂, tail, rfl, hfirst, hload, hn⟩ := exists_second_load hrun hseen
  obtain ⟨before, between, h₁, rfl, hnot, hbefore, hfresh, hbetween, rfl⟩ :=
    exists_first_load hfirst hload
  obtain ⟨taken, htaken⟩ := fetched_prefix_run? hbetween
  have hs₁ := metered_run? hle hbefore
  have hs₂ := metered_run? hle hfirst
  have hlen : n = h₁.ring.len - UInt64.ofNat taken.length := by
    have hhead : h₂.ring.control.head = h₁.ring.control.head + UInt64.ofNat taken.length := by
      rw [hs₂.head_eq, hs₁.head_eq, ← htaken, List.length_append, UInt64.ofNat_add,
        UInt64.add_assoc]
    rw [hn, hhead, Ring.len, Control.len]
    grind
  refine ⟨before, between, after, h₁, h₂, taken, by simp, hnot, hbefore, hfresh, hbetween,
    htaken.symm, hlen, fun hfew ↦ ?_⟩
  rw [hlen]
  exact sub_ofNat_le_iff (hs₁.capacity_eq ▸ hs₁.len_le) hfew

/-- An observer has loaded the tail of a ring that holds two records. One of them is taken and a
third is stored before it loads the head. -/
def oneTakenBetween : List (Access Nat) :=
  [.store 7, .produce, .produce, .produce, .produce, .store 8, .produce, .produce,
    .produce, .produce, .look, .observe, .fetch, .consume, .consume, .consume, .consume, .store 9,
    .produce, .produce, .produce, .produce, .observe]

/-- The observer sees one record, since the other one is taken between its two loads. -/
theorem seen_run?_oneTakenBetween :
    (Ring.blank 2 (by decide) : Ring Nat).len ≤ 2 ∧
    ∃ h, (atRest (Ring.blank 2 (by decide))).run? oneTakenBetween = some h ∧
      h.observer = .idle (some 1) ∧ h.fetched = [7] ∧
      ∃ before between after h₁ h₂ taken,
        oneTakenBetween = before ++ .observe :: between ++ .observe :: after ∧ .observe ∉ between ∧
        (atRest (Ring.blank 2 (by decide))).run? before = some h₁ ∧
        h₁.run? (.observe :: between) = some h₂ ∧ h₂.fetched = h₁.fetched ++ taken ∧
        1 = h₁.ring.len - UInt64.ofNat taken.length := by
  have hle : (Ring.blank 2 (by decide) : Ring Nat).len ≤ 2 := by decide
  let h : Handover Nat := ((atRest (Ring.blank 2 (by decide))).run? oneTakenBetween).get (by decide)
  have hrun : (atRest (Ring.blank 2 (by decide))).run? oneTakenBetween = some h :=
    (Option.some_get _).symm
  obtain ⟨before, between, after, h₁, h₂, taken, haccesses, hnot, hbefore, -, hbetween, htaken,
    hseen, -⟩ :=
    seen_run? hle hrun rfl
  exact ⟨hle, h, hrun, rfl, rfl, before, between, after, h₁, h₂, taken, haccesses, hnot,
    hbefore, hbetween, htaken, hseen⟩

/-- An observer has loaded the tail of an empty ring for one record. A record passes the ring before
it loads the head. -/
def overtaken : List (Access Nat) :=
  [.look, .observe, .store 7, .produce, .produce, .produce, .produce, .fetch, .consume,
    .consume, .consume, .consume, .observe]

/-- A length that was seen need not be one that the ring can have. -/
theorem seen_overtaken :
    ¬ ∀ (ring : Ring Nat) (accesses : List (Access Nat)) (h : Handover Nat) (n : UInt64),
      ring.len ≤ ring.capacity → (atRest ring).run? accesses = some h →
      h.observer = .idle (some n) →
        n ≤ ring.capacity := by
  intro hbounded
  let h : Handover Nat := ((atRest (Ring.blank 1 (by decide))).run? overtaken).get (by decide)
  have hrun : (atRest (Ring.blank 1 (by decide))).run? overtaken = some h :=
    (Option.some_get _).symm
  -- the head has come to one, and the tail was zero when it was loaded
  have hseen : h.observer = .idle (some (0 - 1)) := rfl
  exact absurd (hbounded _ _ h _ (by decide) hrun hseen) (by decide)

end Handover

end RingCall
