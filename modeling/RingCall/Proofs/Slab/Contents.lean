import Mathlib.Data.List.Nodup
import RingCall.Slab.Basic

/-!
# What a slab holds

A slab is a finite map from numbers to values: `get?_push` and `get?_pop` say what storing a value
and taking one out do to it, and `len_push` and `len_pop` that its length counts the values.

This rests on `Slab.Sound`, of which the list of free slots is the main part. Starting from `next`,
the links in the vacant slots lead through every vacant slot but slot 0, through none twice, and end
at 0. So the slot that is handed out next is vacant (`exists_vacant_next`), and what it held is the
rest of the list.
-/

namespace RingCall

variable {α : Type}

/-- Whether a slot holds a value. -/
def Slot.isOccupied : Slot α → Bool
  | .vacant _ => false
  | .occupied _ => true

namespace Slab

variable {slots slots' : Array (Slot α)} {s : Slab α} {i j next : Nat} {free : List Nat} {v : α}

/-! ### The list of free slots -/

/-- The numbers that the links in vacant slots lead through, from a number to 0. -/
inductive Chain (slots : Array (Slot α)) : Nat → List Nat → Prop where
  | nil : Chain slots 0 []
  | cons {i next : Nat} {free : List Nat} (hi : i ≠ 0) (hslot : slots[i]? = some (.vacant next))
      (hrest : Chain slots next free) : Chain slots i (i :: free)

/-- A chain does not depend on the slots that it does not lead through. -/
theorem Chain.frame (h : Chain slots i free) (hslots : ∀ j ∈ free, slots'[j]? = slots[j]?) :
    Chain slots' i free := by
  induction h with
  | nil => exact .nil
  | @cons j _ _ hj hslot _ ih =>
    refine .cons hj ?_ (ih fun k hk ↦ hslots k (List.mem_cons_of_mem j hk))
    rw [hslots j List.mem_cons_self, hslot]

/-- The slots in a chain are vacant, and slot 0 is not among them. -/
theorem Chain.vacant (h : Chain slots i free) :
    ∀ j ∈ free, j ≠ 0 ∧ ∃ n, slots[j]? = some (.vacant n) := by
  induction h with
  | nil => exact nofun
  | cons hj hslot _ ih =>
    intro k hk
    rcases List.mem_cons.1 hk with rfl | hk
    · exact ⟨hj, _, hslot⟩
    · exact ih k hk

/-- **The invariant of slabs.** -/
structure Sound (s : Slab α) : Prop where
  /-- Slot 0 is vacant for good. -/
  zero : ∃ n, s.slots[0]? = some (.vacant n)
  /-- The free slots form a list that has each of them once. -/
  free : ∃ free, Chain s.slots s.next free ∧ free.Nodup ∧
    ∀ i n, i ≠ 0 → s.slots[i]? = some (.vacant n) → i ∈ free
  len_eq : s.len = s.slots.countP Slot.isOccupied

/-- An empty slab is sound. -/
theorem sound_empty : (empty : Slab α).Sound where
  zero := ⟨0, rfl⟩
  free := by
    refine ⟨[], .nil, .nil, ?_⟩
    intro i n hi h
    have hlt : i < 1 := (Array.getElem?_eq_some_iff.1 h).1
    omega
  len_eq := rfl

/-- Nothing is found in an empty slab. -/
theorem get?_empty (i : Nat) : (empty : Slab α).get? i = none := by
  cases i <;> rfl

/-- What is stored has a slot. -/
theorem lt_size_of_get? (h : s.get? i = some v) : i < s.slots.size := by
  by_contra hlt
  rw [get?, Array.getElem?_eq_none (Nat.le_of_not_lt hlt)] at h
  cases h

/-- The next free slot, if there is one, is vacant, and its link leads to the others. -/
theorem Sound.exists_vacant_next (h : s.Sound) (hnext : s.next ≠ 0) :
    ∃ n rest, s.slots[s.next]? = some (.vacant n) ∧ Chain s.slots n rest ∧ (s.next :: rest).Nodup ∧
      ∀ i n, i ≠ 0 → s.slots[i]? = some (.vacant n) → i ∈ s.next :: rest := by
  obtain ⟨free, hchain, hnodup, hall⟩ := h.free
  generalize hn : s.next = k at hchain hnext
  cases hchain with
  | nil => exact absurd rfl hnext
  | cons _ hslot hrest => exact ⟨_, _, hslot, hrest, hnodup, hall⟩

/-- No slot but slot 0 is vacant when there is no next free slot. -/
theorem Sound.ne_vacant_of_next_eq_zero (h : s.Sound) (hnext : s.next = 0) (hi : i ≠ 0) (n : Nat) :
    s.slots[i]? ≠ some (.vacant n) := by
  obtain ⟨free, hchain, -, hall⟩ := h.free
  rw [hnext] at hchain
  rcases hchain with - | ⟨hne, -, -⟩
  · exact fun hslot ↦ absurd (hall i n hi hslot) List.not_mem_nil
  · exact absurd rfl hne

/-! ### Storing a value -/

/-- A slab without a free slot grows by one. -/
theorem push_of_next_eq_zero (h : s.next = 0) (v : α) :
    s.push v = (s.slots.size, ⟨s.slots.push (.occupied v), 0, s.len + 1⟩) := by
  rw [push, if_pos h]

/-- A free slot is used again. -/
theorem push_of_vacant (hnext : s.next ≠ 0) {n : Nat} (h : s.slots[s.next]? = some (.vacant n))
    (v : α) :
    s.push v = (s.next, ⟨s.slots.setIfInBounds s.next (.occupied v), n, s.len + 1⟩) := by
  rw [push, if_neg hnext]
  simp only [h]

@[simp] theorem len_push (s : Slab α) (v : α) : (s.push v).2.len = s.len + 1 := by
  rw [push]
  split <;> rfl

/-- A slab never shrinks. -/
theorem size_le_size_push (s : Slab α) (v : α) : s.slots.size ≤ (s.push v).2.slots.size := by
  rw [push]
  split
  · rw [Array.size_push]
    exact Nat.le_succ _
  · exact Nat.le_of_eq Array.size_setIfInBounds.symm

/-- A slab grows by one slot at a time. -/
theorem size_push_le (s : Slab α) (v : α) : (s.push v).2.slots.size ≤ s.slots.size + 1 := by
  rw [push]
  split
  · exact Nat.le_of_eq (Array.size_push _)
  · rw [Array.size_setIfInBounds]
    exact Nat.le_succ _

/-- The number of a value is that of a slot. -/
theorem Sound.fst_push_lt (h : s.Sound) (v : α) : (s.push v).1 < (s.push v).2.slots.size := by
  by_cases hnext : s.next = 0
  · rw [push_of_next_eq_zero hnext, Array.size_push]
    exact Nat.lt_succ_self _
  · obtain ⟨n, rest, hslot, -⟩ := h.exists_vacant_next hnext
    rw [push_of_vacant hnext hslot, Array.size_setIfInBounds]
    exact (Array.getElem?_eq_some_iff.1 hslot).1

/-- A number that is handed out is not in use. -/
theorem Sound.get?_fst_push (h : s.Sound) (v : α) : s.get? (s.push v).1 = none := by
  by_cases hnext : s.next = 0
  · rw [push_of_next_eq_zero hnext, get?, Array.getElem?_eq_none (Nat.le_refl _)]
  · obtain ⟨n, rest, hslot, -⟩ := h.exists_vacant_next hnext
    rw [push_of_vacant hnext hslot, get?, hslot]

/-- A value that is stored is found under its index, and the others where they were. -/
theorem Sound.get?_push (h : s.Sound) (v : α) (i : Nat) :
    (s.push v).2.get? i = if i = (s.push v).1 then some v else s.get? i := by
  by_cases hnext : s.next = 0
  · rw [push_of_next_eq_zero hnext, get?, get?, Array.getElem?_push]
    by_cases hi : i = s.slots.size <;> simp [hi]
  · obtain ⟨n, rest, hslot, -⟩ := h.exists_vacant_next hnext
    have hlt := (Array.getElem?_eq_some_iff.1 hslot).1
    rw [push_of_vacant hnext hslot, get?, get?, Array.getElem?_setIfInBounds]
    by_cases hi : s.next = i
    · simp [hi, hi ▸ hlt]
    · simp [hi, Ne.symm hi]

/-- Number 0 is never in use. -/
theorem Sound.get?_zero (h : s.Sound) : s.get? 0 = none := by
  obtain ⟨n, hzero⟩ := h.zero
  rw [get?, hzero]

/-- Number 0 is never handed out. -/
theorem Sound.fst_push_ne_zero (h : s.Sound) (v : α) : (s.push v).1 ≠ 0 := by
  by_cases hnext : s.next = 0
  · obtain ⟨n, hzero⟩ := h.zero
    rw [push_of_next_eq_zero hnext]
    exact Nat.ne_of_gt (Array.getElem?_eq_some_iff.1 hzero).1
  · obtain ⟨n, rest, hslot, -⟩ := h.exists_vacant_next hnext
    rw [push_of_vacant hnext hslot]
    exact hnext

/-- Storing a value keeps a slab sound. -/
theorem Sound.push (h : s.Sound) (v : α) : (s.push v).2.Sound := by
  obtain ⟨n₀, hzero⟩ := h.zero
  have hpos : 0 < s.slots.size := (Array.getElem?_eq_some_iff.1 hzero).1
  by_cases hnext : s.next = 0
  · rw [push_of_next_eq_zero hnext]
    -- no slot is free, and the new one is in use
    refine ⟨⟨n₀, ?_⟩, ⟨[], .nil, .nil, ?_⟩, ?_⟩
    · rw [Array.getElem?_push, if_neg (by omega), hzero]
    · intro i n hi hslot
      rw [Array.getElem?_push] at hslot
      split at hslot
      · cases hslot
      · exact absurd hslot (h.ne_vacant_of_next_eq_zero hnext hi n)
    · rw [Array.countP_push, ← h.len_eq]
      rfl
  · obtain ⟨n, rest, hslot, hchain, hnodup, hall⟩ := h.exists_vacant_next hnext
    -- the list goes on behind its first slot, which is in use now
    obtain ⟨hlt, hget⟩ := Array.getElem?_eq_some_iff.1 hslot
    obtain ⟨hnotin, hnodup⟩ := List.nodup_cons.1 hnodup
    rw [push_of_vacant hnext hslot]
    refine ⟨⟨n₀, ?_⟩, ⟨rest, ?_, hnodup, ?_⟩, ?_⟩
    · rw [Array.getElem?_setIfInBounds, if_neg hnext, hzero]
    · refine hchain.frame ?_
      intro j hj
      have hne : s.next ≠ j := fun heq ↦ hnotin (heq ▸ hj)
      rw [Array.getElem?_setIfInBounds, if_neg hne]
    · intro i m hi hvacant
      rw [Array.getElem?_setIfInBounds] at hvacant
      split at hvacant
      · cases hvacant
      · next hne => exact (List.mem_cons.1 (hall i m hi hvacant)).resolve_left (Ne.symm hne)
    · rw [Array.setIfInBounds, dif_pos hlt, Array.countP_set, hget, h.len_eq]
      rfl

/-! ### Taking a value out -/

/-- Only what is stored can be taken out, and its slot is then the first free one. -/
theorem Sound.pop_of_get? (h : s.Sound) (hget : s.get? i = some v) :
    i ≠ 0 ∧ s.slots[i]? = some (.occupied v) ∧
      s.pop i = (some v, ⟨s.slots.setIfInBounds i (.vacant s.next), i, s.len - 1⟩) := by
  obtain ⟨n₀, hzero⟩ := h.zero
  have hi : i ≠ 0 := by
    rintro rfl
    rw [get?, hzero] at hget
    cases hget
  have hslot : s.slots[i]? = some (.occupied v) := by
    rw [get?] at hget
    split at hget
    · next hslot => rw [hslot, Option.some.inj hget]
    · cases hget
  refine ⟨hi, hslot, ?_⟩
  rw [pop, if_neg hi]
  simp only [hslot]

/-- A number that is not in use changes nothing. -/
theorem pop_of_get?_eq_none (hget : s.get? i = none) : s.pop i = (none, s) := by
  rw [pop]
  rw [get?] at hget
  split
  · rfl
  · split at hget
    · cases hget
    · rfl

/-- What is taken out is what would have been found. -/
theorem Sound.fst_pop (h : s.Sound) (i : Nat) : (s.pop i).1 = s.get? i := by
  rcases hget : s.get? i with - | v
  · rw [pop_of_get?_eq_none hget]
  · rw [(h.pop_of_get? hget).2.2]

/-- A value that is taken out is gone, and the others are found where they were. -/
theorem Sound.get?_pop (h : s.Sound) (i j : Nat) :
    (s.pop i).2.get? j = if j = i then none else s.get? j := by
  rcases hget : s.get? i with - | v
  · rw [pop_of_get?_eq_none hget]
    split
    · next heq => rw [heq, hget]
    · rfl
  · obtain ⟨-, hslot, hpop⟩ := h.pop_of_get? hget
    have hlt := (Array.getElem?_eq_some_iff.1 hslot).1
    rw [hpop, get?, get?, Array.getElem?_setIfInBounds]
    by_cases hj : i = j
    · simp [hj, hj ▸ hlt]
    · simp [hj, Ne.symm hj]

@[simp] theorem size_pop (s : Slab α) (i : Nat) : (s.pop i).2.slots.size = s.slots.size := by
  rw [pop]
  split
  · rfl
  · split
    · exact Array.size_setIfInBounds
    · rfl

/-- Taking a value out counts one less. -/
theorem Sound.len_pop (h : s.Sound) (hget : s.get? i = some v) : (s.pop i).2.len + 1 = s.len := by
  obtain ⟨-, hslot, hpop⟩ := h.pop_of_get? hget
  obtain ⟨hlt, hocc⟩ := Array.getElem?_eq_some_iff.1 hslot
  have hpos : 0 < s.len := by
    rw [h.len_eq, Array.countP_pos_iff]
    exact ⟨_, Array.getElem_mem hlt, by rw [hocc]; rfl⟩
  rw [hpop]
  exact Nat.sub_add_cancel hpos

/-- Taking a value out keeps a slab sound. -/
theorem Sound.pop (h : s.Sound) (i : Nat) : (s.pop i).2.Sound := by
  rcases hget : s.get? i with - | v
  · rw [pop_of_get?_eq_none hget]
    exact h
  · obtain ⟨hi, hslot, hpop⟩ := h.pop_of_get? hget
    obtain ⟨hlt, hocc⟩ := Array.getElem?_eq_some_iff.1 hslot
    obtain ⟨n₀, hzero⟩ := h.zero
    obtain ⟨free, hchain, hnodup, hall⟩ := h.free
    -- the slot is in use, so that the list does not lead through it yet
    have hnotin : i ∉ free := fun hmem ↦ by
      obtain ⟨-, n, hvacant⟩ := hchain.vacant i hmem
      rw [hslot] at hvacant
      cases hvacant
    have hother : ∀ j, j ≠ i → (s.slots.setIfInBounds i (.vacant s.next))[j]? = s.slots[j]? :=
      fun j hj ↦ by rw [Array.getElem?_setIfInBounds, if_neg (Ne.symm hj)]
    rw [hpop]
    refine ⟨⟨n₀, ?_⟩, ⟨i :: free, ?_, List.nodup_cons.2 ⟨hnotin, hnodup⟩, ?_⟩, ?_⟩
    · rw [hother 0 (Ne.symm hi), hzero]
    · refine .cons hi ?_ (hchain.frame fun j hj ↦ hother j fun heq ↦ hnotin (heq ▸ hj))
      rw [Array.getElem?_setIfInBounds_self_of_lt hlt]
    · intro j n hj hvacant
      by_cases hji : j = i
      · exact hji ▸ List.mem_cons_self
      · rw [hother j hji] at hvacant
        exact List.mem_cons_of_mem _ (hall j n hj hvacant)
    · rw [Array.setIfInBounds, dif_pos hlt, Array.countP_set, hocc, h.len_eq]
      rfl

end Slab

end RingCall
