import RingCall.Proofs.Slab.Sharded

/-!
# Slots are used again

A slab grows only when all its slots are in use (`Slab.Sound.size_push_le_max`), so the slots that
it has are bounded by the values that it ever held at once, and not by those that it was given. A
sharded slab therefore fits for good if it never holds many values (`ShardedSlab.Ready.push`).

A value that is stored and taken out again leaves no trace but in the order in which slots are used
(`ShardedSlab.Agrees.pop_push`), whatever was stored and taken out meanwhile.
-/

namespace RingCall

variable {α : Type}

namespace Slab

variable {s : Slab α}

/-- Every slot but slot 0 is in use when no slot is free. -/
theorem Sound.size_eq_of_next_eq_zero (h : s.Sound) (hnext : s.next = 0) :
    s.slots.size = s.len + 1 := by
  have hused : ∀ i n, i ≠ 0 → s.slots.toList[i]? ≠ some (.vacant n) := by
    intro i n hi hslot
    rw [Array.getElem?_toList] at hslot
    exact h.ne_vacant_of_next_eq_zero hnext hi n hslot
  obtain ⟨n, hzero⟩ := h.zero
  have hlen := h.len_eq
  rw [← Array.getElem?_toList] at hzero
  rw [← Array.countP_toList] at hlen
  rw [← Array.length_toList]
  cases hslots : s.slots.toList with
  | nil => rw [hslots] at hzero; cases hzero
  | cons first rest =>
    rw [hslots] at hzero hlen hused
    obtain rfl := Option.some.inj hzero
    have hrest : rest.countP Slot.isOccupied = rest.length := by
      refine List.countP_eq_length.2 fun slot hslot ↦ ?_
      obtain ⟨i, hi⟩ := List.mem_iff_getElem?.1 hslot
      cases slot with
      | vacant n => exact absurd hi (hused (i + 1) n (Nat.succ_ne_zero i))
      | occupied => rfl
    rw [List.length_cons, hlen, ← hrest]
    rfl

/-- A slab grows only when all its slots are in use. -/
theorem Sound.size_push_le_max (h : s.Sound) (v : α) :
    (s.push v).2.slots.size ≤ max s.slots.size (s.len + 2) := by
  by_cases hnext : s.next = 0
  · rw [push_of_next_eq_zero hnext, Array.size_push, h.size_eq_of_next_eq_zero hnext]
    exact Nat.le_max_right _ _
  · obtain ⟨n, rest, hslot, -⟩ := h.exists_vacant_next hnext
    rw [push_of_vacant hnext hslot, Array.size_setIfInBounds]
    exact Nat.le_max_left _ _

end Slab

/-- How many values a sharded slab has, and how many shards. -/
structure Load where
  len : Nat
  shardCount : Nat

/-- A handle is left for another value, and for one in each shard. -/
def Load.HasHandles (l : Load) : Prop := l.len = 0 ∨ (l.len + 2) * l.shardCount ≤ 2 ^ 64

namespace ShardedSlab

variable {s s' : ShardedSlab α} {v : α}

def load (s : ShardedSlab α) : Load := ⟨s.len, s.shardCount⟩

theorem load_push (s : ShardedSlab α) (v : α) :
    (s.push v).2.load = { s.load with len := s.load.len + 1 } :=
  congrArg (Load.mk · _) (s.len_push v)

/-- No shard holds more values than the slab does. -/
theorem len_shard_le (s : ShardedSlab α) (i : Fin (1 <<< s.bits)) : (s.shard i).len ≤ s.len := by
  have hlen := s.len_replace i .empty s.cursor
  have hempty : (Slab.empty : Slab α).len = 0 := rfl
  omega

/-- The handles of a slab are words. -/
structure Ready (s : ShardedSlab α) : Prop where
  sound : s.Sound
  fits : s.Fits
  bits_lt : s.bits < 64

theorem ready_ofBits {bits : Nat} (hbits : bits < 64) : (ofBits bits : ShardedSlab α).Ready where
  sound := sound_ofBits bits
  fits i := by
    have hpow : 2 ^ bits ≤ 2 ^ 64 := Nat.pow_le_pow_right Nat.two_pos (Nat.le_of_lt hbits)
    rw [shard_ofBits bits i]
    show 1 * 2 ^ bits ≤ 2 ^ 64
    omega
  bits_lt := hbits

/-- A slab with a handle left remains one whose handles are words. -/
theorem Ready.push (h : s.Ready) (hhandles : s.load.HasHandles) (v : α) : (s.push v).2.Ready where
  sound := h.sound.push v
  bits_lt := h.bits_lt
  fits := by
    have hroom : (s.len + 2) * 2 ^ s.bits ≤ 2 ^ 64 := by
      simp only [Load.HasHandles, load, shardCount, Nat.one_shiftLeft] at hhandles
      rcases hhandles with hzero | hroom
      · rw [hzero, ← Nat.pow_succ']
        exact Nat.pow_le_pow_right Nat.two_pos h.bits_lt
      · exact hroom
    rw [push_eq]
    refine (s.fits_replace_iff _ _ _).2 ⟨?_, fun j _ ↦ h.fits j⟩
    have hlen := s.len_shard_le s.nextShard
    calc ((s.shard s.nextShard).push v).2.slots.size * 2 ^ s.bits
        ≤ max (s.shard s.nextShard).slots.size ((s.shard s.nextShard).len + 2) * 2 ^ s.bits :=
          Nat.mul_le_mul_right _ ((h.sound s.nextShard).size_push_le_max v)
      _ ≤ max (s.shard s.nextShard).slots.size (s.len + 2) * 2 ^ s.bits :=
          Nat.mul_le_mul_right _ (by omega)
      _ = max ((s.shard s.nextShard).slots.size * 2 ^ s.bits) ((s.len + 2) * 2 ^ s.bits) :=
          Nat.mul_max_mul_right _ _ _ |>.symm
      _ ≤ 2 ^ 64 := Nat.max_le.2 ⟨h.fits s.nextShard, hroom⟩

/-- A pop keeps every shard ready for the next push. -/
theorem Ready.pop (h : s.Ready) (handle : UInt64) : (s.pop handle).2.Ready where
  sound := h.sound.pop handle
  bits_lt := h.bits_lt
  fits := by
    rw [pop_eq]
    refine (s.fits_replace_iff _ _ _).2 ⟨?_, fun j _ ↦ h.fits j⟩
    rw [Slab.size_pop]
    exact h.fits _

/-- An empty slab has no value under any handle. -/
theorem get?_of_len_eq_zero (hs : s.Sound) (hlen : s.len = 0) (handle : UInt64) :
    s.get? handle = none := by
  refine Option.eq_none_iff_forall_ne_some.2 fun v hget ↦ ?_
  have hpop := len_pop hs hget
  omega

/-! ### Slabs with the same values -/

/-- Two slabs have the same values under the same handles. -/
structure Agrees (s s' : ShardedSlab α) : Prop where
  bits_eq : s'.bits = s.bits
  get?_eq : ∀ handle, s'.get? handle = s.get? handle
  len_eq : s'.len = s.len

namespace Agrees

theorem refl (s : ShardedSlab α) : s.Agrees s := ⟨rfl, fun _ ↦ rfl, rfl⟩

theorem trans {s'' : ShardedSlab α} (h : s.Agrees s') (h' : s'.Agrees s'') : s.Agrees s'' :=
  ⟨h'.bits_eq.trans h.bits_eq, fun handle ↦ (h'.get?_eq handle).trans (h.get?_eq handle),
    h'.len_eq.trans h.len_eq⟩

theorem load_eq (h : s.Agrees s') : s'.load = s.load := by
  rw [load, load, shardCount, shardCount, h.len_eq, h.bits_eq]

/-- A value that was stored is found under its handle, and the slab has the values that it had
before once it is taken out. -/
theorem pop_push (hs : s.Sound) (hf : (s.push v).2.Fits) (h : (s.push v).2.Agrees s')
    (hs' : s'.Sound) :
    (s'.pop (s.push v).1).1 = some v ∧ s.Agrees (s'.pop (s.push v).1).2 := by
  have hget : s'.get? (s.push v).1 = some v := by
    rw [h.get?_eq, get?_push hs hf, if_pos rfl]
  refine ⟨(fst_pop hs' _).trans hget, h.bits_eq, fun handle ↦ ?_, ?_⟩
  · rw [get?_pop hs', h.get?_eq, get?_push hs hf]
    split
    · next heq => rw [heq, get?_fst_push hs hf]
    · rfl
  · have hpop := len_pop hs' hget
    rw [h.len_eq, len_push] at hpop
    exact Nat.add_right_cancel hpop

end Agrees

end ShardedSlab

end RingCall
