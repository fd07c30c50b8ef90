import Mathlib.Data.Nat.ModEq
import RingCall.Ring.Basic

/-!
# What a ring holds

A ring is used through two operations, and `Ring.contents` says what they do: storing a record
appends it to the contents (`contents_of_push?`) and taking one removes the first
(`contents_of_pop?`).

Two facts carry this. A ring that holds no more than its capacity goes on doing so whatever is done
to it (`len_le_of_push?`, `len_le_of_pop?`), even when its counters wrap around. The slots between
head and tail are different slots, as long as the counters have not wrapped in between
(`slot_ne_slot_tail`); this alone is what `contents_of_push?` needs, since taking a record never
writes a slot.

The flags of the control block do not matter for any of this.
-/

namespace RingCall.Ring

variable {α : Type} {r r' : Ring α} {a : α}

/-! ### The flags -/

section Flags

variable (r : Ring α) (on : Bool)

@[simp] theorem isWorking_setWorking : (r.setWorking on).isWorking = on := by
  cases on <;> rfl

@[simp] theorem isStuck_setStuck : (r.setStuck on).isStuck = on := by
  cases on <;> rfl

@[simp] theorem isWorking_setStuck : (r.setStuck on).isWorking = r.isWorking := rfl

@[simp] theorem len_setWorking : (r.setWorking on).len = r.len := rfl

@[simp] theorem len_setStuck : (r.setStuck on).len = r.len := rfl

@[simp] theorem isEmpty_setWorking : (r.setWorking on).isEmpty = r.isEmpty := rfl

@[simp] theorem isEmpty_setStuck : (r.setStuck on).isEmpty = r.isEmpty := rfl

@[simp] theorem isFull_setStuck : (r.setStuck on).isFull = r.isFull := rfl

end Flags

/-! ### Counting the records -/

/-- A ring has as many records as its length says. -/
@[simp] theorem length_contents (r : Ring α) : r.contents.length = r.len.toNat := by
  simp [contents]

/-- A ring is full when its length is its capacity. -/
theorem isFull_iff : r.isFull = true ↔ r.len = r.capacity := by
  simp [isFull, Control.isFull, len]

/-- A ring is empty when its length is 0. -/
theorem isEmpty_iff : r.isEmpty = true ↔ r.len = 0 := by
  rw [isEmpty, Control.isEmpty, beq_iff_eq, len, Control.len, UInt64.sub_eq_iff_eq_add,
    UInt64.zero_add]

/-- An empty ring is one without records. -/
theorem contents_eq_nil_iff : r.contents = [] ↔ r.isEmpty = true := by
  rw [isEmpty_iff, ← List.length_eq_zero_iff, length_contents]
  exact ⟨fun h ↦ UInt64.toNat_inj.1 h, fun h ↦ h ▸ rfl⟩

/-- The tail is as far behind the head as there are records. -/
theorem tail_eq (r : Ring α) : r.control.tail = r.control.head + r.len := by
  rw [len, Control.len, UInt64.add_comm, UInt64.sub_add_cancel]

/-- A push fails on a full ring only. -/
theorem push?_eq_none_iff : r.push? a = none ↔ r.len = r.capacity := by
  rw [← isFull_iff, push?]
  cases r.isFull <;> simp

/-- A pop fails on an empty ring only. -/
theorem pop?_eq_none_iff : r.pop? = none ↔ r.isEmpty = true := by
  rw [pop?]
  cases r.isEmpty <;> simp

/-! ### Storing a record -/

/-- What a push does: it writes the slot at the tail and moves the tail on. -/
theorem push?_eq_some (h : r.push? a = some r') :
    r.len ≠ r.capacity ∧ r' = { r with
      control := { r.control with tail := r.control.tail + 1 }
      slots := fun i ↦ if i = r.slot r.control.tail then a else r.slots i } := by
  rw [push?] at h
  split at h
  · cases h
  · next hfull => exact ⟨fun heq ↦ hfull (isFull_iff.2 heq), (Option.some.inj h).symm⟩

/-- A push leaves the capacity alone. -/
theorem capacity_of_push? (h : r.push? a = some r') : r'.capacity = r.capacity := by
  rw [(push?_eq_some h).2]

/-- A push leaves the head alone. -/
theorem head_of_push? (h : r.push? a = some r') : r'.control.head = r.control.head := by
  rw [(push?_eq_some h).2]

theorem isWorking_of_push? (h : r.push? a = some r') : r'.isWorking = r.isWorking := by
  rw [(push?_eq_some h).2]
  rfl

theorem isStuck_of_push? (h : r.push? a = some r') : r'.isStuck = r.isStuck := by
  rw [(push?_eq_some h).2]
  rfl

/-- A push adds one to the length, modulo the word size. -/
theorem len_of_push? (h : r.push? a = some r') : r'.len = r.len + 1 := by
  rw [(push?_eq_some h).2, len, Control.len, len, Control.len]
  grind

/-- A ring that is not overfull counts one more record after one was stored. -/
theorem toNat_len_of_push? (hle : r.len ≤ r.capacity) (h : r.push? a = some r') :
    r'.len.toNat = r.len.toNat + 1 := by
  -- a length below the capacity is not the greatest word
  have hne : r.len.toNat ≠ r.capacity.toNat := fun heq ↦
    (push?_eq_some h).1 (UInt64.toNat_inj.1 heq)
  have hcap := r.capacity.toNat_lt
  rw [UInt64.le_iff_toNat_le] at hle
  rw [len_of_push? h, UInt64.toNat_add, UInt64.toNat_one, Nat.mod_eq_of_lt (by omega)]

/-- A push does not overfill a ring. -/
theorem len_le_of_push? (hle : r.len ≤ r.capacity) (h : r.push? a = some r') :
    r'.len ≤ r'.capacity := by
  have hne : r.len.toNat ≠ r.capacity.toNat := fun heq ↦
    (push?_eq_some h).1 (UInt64.toNat_inj.1 heq)
  rw [UInt64.le_iff_toNat_le] at hle ⊢
  rw [toNat_len_of_push? (UInt64.le_iff_toNat_le.2 hle) h, capacity_of_push? h]
  omega

/-- The slots of two counters that are less than the capacity apart are different. -/
theorem mod_ne_mod {i j n : Nat} (hij : i < j) (hn : j < i + n) : i % n ≠ j % n := by
  intro heq
  have hdvd : n ∣ j - i := (Nat.modEq_iff_dvd' hij.le).1 heq
  exact absurd (Nat.le_of_dvd (by omega) hdvd) (by omega)

/-- While the counters have not wrapped around, no record held is in the slot that comes next. -/
theorem slot_ne_slot_tail (hwrap : r.control.head.toNat + r.len.toNat < 2 ^ 64)
    (hlt : r.len < r.capacity) {i : Nat} (hi : i < r.len.toNat) :
    r.slot (r.control.head + UInt64.ofNat i) ≠ r.slot r.control.tail := by
  have hcap : r.len.toNat < r.capacity.toNat := UInt64.lt_iff_toNat_lt.1 hlt
  -- no counter up to the tail has wrapped around, so that words add up like numbers
  have hat : (r.control.head + UInt64.ofNat i).toNat = r.control.head.toNat + i := by
    rw [UInt64.toNat_add, UInt64.toNat_ofNat', Nat.add_mod_mod, Nat.mod_eq_of_lt (by omega)]
  have htail : r.control.tail.toNat = r.control.head.toNat + r.len.toNat := by
    rw [tail_eq, UInt64.toNat_add, Nat.mod_eq_of_lt hwrap]
  rw [slot, slot, hat, htail]
  exact mod_ne_mod (by omega) (by omega)

/-- Storing a record appends it, if the slots of the records held are not the one that comes
next. -/
theorem contents_of_push? (hle : r.len ≤ r.capacity) (h : r.push? a = some r')
    (hslot : ∀ i < r.len.toNat,
      r.slot (r.control.head + UInt64.ofNat i) ≠ r.slot r.control.tail) :
    r'.contents = r.contents ++ [a] := by
  have hlen := toNat_len_of_push? hle h
  have hr' := (push?_eq_some h).2
  have hslots : ∀ i, r'.slots (r'.slot (r'.control.head + UInt64.ofNat i)) =
      if r.slot (r.control.head + UInt64.ofNat i) = r.slot r.control.tail then a
      else r.slots (r.slot (r.control.head + UInt64.ofNat i)) := by
    intro i
    rw [hr']
    rfl
  rw [contents, hlen, List.range_succ, List.map_append, List.map_singleton]
  congr 1
  · refine List.map_congr_left ?_
    intro i hi
    rw [hslots, if_neg (hslot i (List.mem_range.1 hi))]
  · rw [hslots, UInt64.ofNat_toNat, ← tail_eq, if_pos rfl]

/-! ### Taking a record -/

/-- What a pop does: it reads the slot at the head and moves the head on. -/
theorem pop?_eq_some (h : r.pop? = some (a, r')) :
    r.isEmpty = false ∧ a = r.slots (r.slot r.control.head) ∧
      r' = { r with control := { r.control with head := r.control.head + 1 } } := by
  rw [pop?] at h
  split at h
  · cases h
  · next hempty =>
    obtain ⟨ha, hr⟩ := Prod.mk.inj (Option.some.inj h)
    exact ⟨Bool.eq_false_iff.2 hempty, ha.symm, hr.symm⟩

/-- A pop leaves the capacity alone. -/
theorem capacity_of_pop? (h : r.pop? = some (a, r')) : r'.capacity = r.capacity := by
  rw [(pop?_eq_some h).2.2]

/-- A pop moves the head on by one slot. -/
theorem head_of_pop? (h : r.pop? = some (a, r')) : r'.control.head = r.control.head + 1 := by
  rw [(pop?_eq_some h).2.2]

theorem isStuck_of_pop? (h : r.pop? = some (a, r')) : r'.isStuck = r.isStuck := by
  rw [(pop?_eq_some h).2.2]
  rfl

/-- A pop takes one from the length. -/
theorem toNat_len_of_pop? (h : r.pop? = some (a, r')) : r.len.toNat = r'.len.toNat + 1 := by
  obtain ⟨hempty, -, hr'⟩ := pop?_eq_some h
  have hpos : r.len.toNat ≠ 0 := fun h0 ↦ by
    rw [isEmpty_iff.2 (UInt64.toNat_inj.1 h0)] at hempty
    cases hempty
  have hlen : r.len = r'.len + 1 := by
    rw [hr', len, Control.len, len, Control.len]
    grind
  have hlt := r'.len.toNat_lt
  have hsum : r.len.toNat = (r'.len.toNat + 1) % 2 ^ 64 := by
    rw [hlen, UInt64.toNat_add, UInt64.toNat_one]
  omega

/-- A pop does not overfill a ring. -/
theorem len_le_of_pop? (hle : r.len ≤ r.capacity) (h : r.pop? = some (a, r')) :
    r'.len ≤ r'.capacity := by
  have hlen := toNat_len_of_pop? h
  rw [UInt64.le_iff_toNat_le] at hle ⊢
  rw [capacity_of_pop? h]
  omega

/-- Taking a record takes the first one. -/
theorem contents_of_pop? (h : r.pop? = some (a, r')) : r.contents = a :: r'.contents := by
  obtain ⟨-, ha, hr'⟩ := pop?_eq_some h
  rw [contents, toNat_len_of_pop? h, List.range_succ_eq_map, List.map_cons, List.map_map, contents]
  congr 1
  · rw [ha]
    exact congrArg (fun c ↦ r.slots (r.slot c)) (UInt64.add_zero _)
  · refine List.map_congr_left ?_
    intro i _
    -- the slots are the same, and each is one closer to the head
    have hat : r.control.head + UInt64.ofNat (i + 1) = r'.control.head + UInt64.ofNat i := by
      rw [head_of_pop? h, UInt64.ofNat_add]
      grind
    rw [Function.comp_apply, hat, hr']
    rfl

end RingCall.Ring
