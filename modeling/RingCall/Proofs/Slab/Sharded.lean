import Mathlib.Algebra.Ring.Nat
import Mathlib.Data.List.Nodup
import Mathlib.Data.List.Perm.Basic
import RingCall.Proofs.Slab.Contents
import RingCall.Slab.Sharded

/-!
# What a sharded slab holds

A sharded slab is a finite map from handles to values, as each of its shards is one from numbers to
values (`get?_push`, `get?_pop`). A handle can be read in one way only (`handleOf_shardOf`), so that
different handles never share a slot. The converse, that the handle of a slot leads back to the slot
(`shardOf_handleOf`, `innerOf_handleOf`), needs that the slot's number fits into the bits of a
handle above those of the shard. A slab all of whose slots have such numbers is said to fit
(`Fits`).

`Lists` says that a list has each handle in use once. It is how the handles that are in use are
compared with those that are known elsewhere.
-/

namespace RingCall

namespace ShardedSlab

variable {α : Type} {s : ShardedSlab α} {handle h : UInt64} {v : α}

/-! ### Handles -/

theorem two_pow_bits_pos (s : ShardedSlab α) : 0 < 2 ^ s.bits := Nat.two_pow_pos s.bits

/-- The low bits of a handle choose the shard. -/
theorem val_shardOf (s : ShardedSlab α) (handle : UInt64) :
    (s.shardOf handle : Nat) = handle.toNat % 2 ^ s.bits := by
  simp only [shardOf, Nat.one_shiftLeft]

/-- The high bits of a handle are the index inside the shard. -/
theorem innerOf_eq (s : ShardedSlab α) (handle : UInt64) :
    s.innerOf handle = handle.toNat / 2 ^ s.bits := by
  rw [innerOf, Nat.shiftRight_eq_div_pow]

/-- A handle is the handle of the slot that it leads to. -/
theorem handleOf_shardOf (s : ShardedSlab α) (handle : UInt64) :
    s.handleOf (s.shardOf handle) (s.innerOf handle) = handle := by
  rw [handleOf, Nat.shiftLeft_eq, innerOf_eq, val_shardOf, Nat.div_add_mod', UInt64.ofNat_toNat]

/-- Different handles lead to different slots. -/
theorem eq_of_slot_eq (hshard : s.shardOf handle = s.shardOf h)
    (hinner : s.innerOf handle = s.innerOf h) :
    handle = h := by
  rw [← s.handleOf_shardOf handle, hshard, hinner, handleOf_shardOf]

/-- A handle packs shard and inner index without loss, as long as both fit in a word. -/
theorem toNat_handleOf {shard : Fin (1 <<< s.bits)} {inner : Nat}
    (hfits : inner * 2 ^ s.bits + shard < 2 ^ 64) :
    (s.handleOf shard inner).toNat = inner * 2 ^ s.bits + shard := by
  rw [handleOf, Nat.shiftLeft_eq, UInt64.toNat_ofNat', Nat.mod_eq_of_lt hfits]

theorem lt_two_pow_bits {bits : Nat} (shard : Fin (1 <<< bits)) : (shard : Nat) < 2 ^ bits := by
  simpa only [Nat.one_shiftLeft] using shard.isLt

/-- The number of a slot fits into a handle if all those of its shard do. -/
theorem slot_lt {bits inner size : Nat} (shard : Fin (1 <<< bits)) (hinner : inner < size)
    (hsize : size * 2 ^ bits ≤ 2 ^ 64) : inner * 2 ^ bits + shard < 2 ^ 64 := by
  have hshard := lt_two_pow_bits shard
  calc inner * 2 ^ bits + shard < inner * 2 ^ bits + 2 ^ bits := by omega
    _ = (inner + 1) * 2 ^ bits := (Nat.succ_mul _ _).symm
    _ ≤ size * 2 ^ bits := Nat.mul_le_mul_right _ hinner
    _ ≤ 2 ^ 64 := hsize

theorem shardOf_handleOf {shard : Fin (1 <<< s.bits)} {inner : Nat}
    (hfits : inner * 2 ^ s.bits + shard < 2 ^ 64) : s.shardOf (s.handleOf shard inner) = shard := by
  apply Fin.ext
  rw [val_shardOf, toNat_handleOf hfits, Nat.mul_add_mod_self_right,
    Nat.mod_eq_of_lt (lt_two_pow_bits shard)]

theorem innerOf_handleOf {shard : Fin (1 <<< s.bits)} {inner : Nat}
    (hfits : inner * 2 ^ s.bits + shard < 2 ^ 64) : s.innerOf (s.handleOf shard inner) = inner := by
  rw [innerOf_eq, toNat_handleOf hfits, Nat.mul_comm, Nat.mul_add_div s.two_pow_bits_pos,
    Nat.div_eq_of_lt (lt_two_pow_bits shard), Nat.add_zero]

/-! ### Shards -/

/-- The shard of a number. -/
def shard (s : ShardedSlab α) (i : Fin (1 <<< s.bits)) : Slab α := s.shards.get i

/-- Replaces one of the entries of a vector. -/
@[reducible] def setAt {β : Type} {n : Nat} (xs : Vector β n) (i : Fin n) (x : β) : Vector β n :=
  xs.set i x i.isLt

/-- Replaces a shard and the counter. -/
@[reducible] def replace (s : ShardedSlab α) (i : Fin (1 <<< s.bits)) (slab : Slab α)
    (cursor : UInt64) :
    ShardedSlab α :=
  ⟨s.bits, setAt s.shards i slab, cursor⟩

/-- The shard that the next value goes to. -/
def nextShard (s : ShardedSlab α) : Fin (1 <<< s.bits) := s.shardOf s.cursor

theorem pushAt_eq (s : ShardedSlab α) (i : Fin (1 <<< s.bits)) (v : α) :
    s.pushAt i v = (s.handleOf i ((s.shard i).push v).1,
      s.replace i ((s.shard i).push v).2 s.cursor) := rfl

theorem push_eq (s : ShardedSlab α) (v : α) :
    s.push v = (s.handleOf s.nextShard ((s.shard s.nextShard).push v).1,
      s.replace s.nextShard ((s.shard s.nextShard).push v).2 (s.cursor + 1)) := rfl

theorem pop_eq (s : ShardedSlab α) (handle : UInt64) :
    s.pop handle = (((s.shard (s.shardOf handle)).pop (s.innerOf handle)).1,
      s.replace (s.shardOf handle) ((s.shard (s.shardOf handle)).pop (s.innerOf handle)).2
        s.cursor) := rfl

theorem get?_eq (s : ShardedSlab α) (handle : UInt64) :
    s.get? handle = (s.shard (s.shardOf handle)).get? (s.innerOf handle) := rfl

/-- Replacing one shard leaves every other shard alone. -/
theorem shard_replace (s : ShardedSlab α) (i j : Fin (1 <<< s.bits)) (slab : Slab α)
    (cursor : UInt64) : (s.replace i slab cursor).shard j = if j = i then slab else s.shard j := by
  show (s.shards.set i slab)[j] = _
  rw [Fin.getElem_fin, Vector.getElem_set]
  by_cases h : j = i
  · simp [h]
  · have hne : ¬(i : Nat) = j := fun heq ↦ h (Fin.ext heq.symm)
    rw [if_neg hne, if_neg h]
    rfl

theorem replace_self (s : ShardedSlab α) (i : Fin (1 <<< s.bits)) :
    s.replace i (s.shard i) s.cursor = s := by
  have hset : setAt s.shards i (s.shard i) = s.shards := Vector.set_getElem_self i.isLt
  rw [replace, hset]

/-- What holds of a new shard and of all others holds of each. -/
theorem forall_shard_replace {P : Nat → Slab α → Prop} {i : Fin (1 <<< s.bits)} {slab : Slab α}
    {cursor : UInt64} (hslab : P i slab) (hother : ∀ j ≠ i, P j (s.shard j))
    (j : Fin (1 <<< s.bits)) : P j ((s.replace i slab cursor).shard j) := by
  rw [s.shard_replace i j slab cursor]
  split
  · next heq => exact heq ▸ hslab
  · next hne => exact hother j hne

/-! ### Soundness -/

/-- Each shard is sound. -/
def Sound (s : ShardedSlab α) : Prop := ∀ i, (s.shard i).Sound

/-- The numbers of all slots fit into the bits of a handle that are above those of the shard. -/
def Fits (s : ShardedSlab α) : Prop := ∀ i, (s.shard i).slots.size * 2 ^ s.bits ≤ 2 ^ 64

instance (s : ShardedSlab α) : Decidable s.Fits :=
  inferInstanceAs (Decidable (∀ i, (s.shard i).slots.size * 2 ^ s.bits ≤ 2 ^ 64))

theorem shard_ofBits (bits : Nat) (i : Fin (1 <<< bits)) :
    (ofBits bits : ShardedSlab α).shard i = .empty :=
  Vector.getElem_replicate i.isLt

theorem sound_ofBits (bits : Nat) : (ofBits bits : ShardedSlab α).Sound := fun i ↦ by
  rw [shard_ofBits bits i]
  exact Slab.sound_empty

/-- Soundness is a matter of the shards one by one: a sound replacement keeps it. -/
theorem Sound.replace (hs : s.Sound) (i : Fin (1 <<< s.bits)) {slab : Slab α} (hslab : slab.Sound)
    (cursor : UInt64) : (s.replace i slab cursor).Sound := fun j ↦ by
  exact forall_shard_replace (P := fun _ slab ↦ slab.Sound) hslab (fun j _ ↦ hs j) j

theorem Sound.advance (hs : s.Sound) : s.advance.2.Sound := hs

theorem Sound.pushAt (hs : s.Sound) (i : Fin (1 <<< s.bits)) (v : α) : (s.pushAt i v).2.Sound :=
  hs.replace _ ((hs i).push v) _

theorem Sound.push (hs : s.Sound) (v : α) : (s.push v).2.Sound :=
  hs.replace _ ((hs s.nextShard).push v) _

theorem Sound.pop (hs : s.Sound) (handle : UInt64) : (s.pop handle).2.Sound :=
  hs.replace _ ((hs _).pop _) _

/-- A replacement shows only at the handles of the replaced shard. -/
theorem get?_replace (s : ShardedSlab α) (i : Fin (1 <<< s.bits)) (slab : Slab α)
    (cursor h : UInt64) :
    (s.replace i slab cursor).get? h =
      if s.shardOf h = i then slab.get? (s.innerOf h) else s.get? h := by
  show ((s.replace i slab cursor).shard (s.shardOf h)).get? (s.innerOf h) = _
  rw [shard_replace, get?_eq]
  split <;> rfl

theorem fits_replace_iff (s : ShardedSlab α) (i : Fin (1 <<< s.bits)) (slab : Slab α)
    (cursor : UInt64) : (s.replace i slab cursor).Fits ↔
      slab.slots.size * 2 ^ s.bits ≤ 2 ^ 64 ∧
        ∀ j ≠ i, (s.shard j).slots.size * 2 ^ s.bits ≤ 2 ^ 64 := by
  have hshard : ∀ j : Fin (1 <<< s.bits),
      (s.replace i slab cursor).shard j = if j = i then slab else s.shard j :=
    fun j ↦ s.shard_replace i j slab cursor
  constructor
  · intro hf
    refine ⟨?_, ?_⟩
    · have hi : ((s.replace i slab cursor).shard i).slots.size * 2 ^ s.bits ≤ 2 ^ 64 := hf i
      rwa [hshard, if_pos rfl] at hi
    · intro j hj
      have hi : ((s.replace i slab cursor).shard j).slots.size * 2 ^ s.bits ≤ 2 ^ 64 := hf j
      rwa [hshard, if_neg hj] at hi
  · rintro ⟨hslab, hother⟩ j
    show ((s.replace i slab cursor).shard j).slots.size * 2 ^ s.bits ≤ 2 ^ 64
    rw [hshard]
    split
    · exact hslab
    · next hj => exact hother j hj

/-- A slab that fits after a shard grew did so before. -/
theorem Fits.of_replace {i : Fin (1 <<< s.bits)} {slab : Slab α} {cursor : UInt64}
    (hsize : (s.shard i).slots.size ≤ slab.slots.size) (hf : (s.replace i slab cursor).Fits) :
    s.Fits := fun j ↦ by
  obtain ⟨hslab, hother⟩ := (s.fits_replace_iff i slab cursor).1 hf
  by_cases hj : j = i
  · rw [hj]
    exact Nat.le_trans (Nat.mul_le_mul_right _ hsize) hslab
  · exact hother j hj

/-- The handles only grow: a slab that fits after a push has fitted before it. -/
theorem Fits.of_pushAt {i : Fin (1 <<< s.bits)} (hf : (s.pushAt i v).2.Fits) : s.Fits :=
  Fits.of_replace (Slab.size_le_size_push _ v) (pushAt_eq s i v ▸ hf)

theorem Fits.of_push (hf : (s.push v).2.Fits) : s.Fits :=
  Fits.of_pushAt (s := s.advance.2) hf

theorem Fits.of_pop (hf : (s.pop handle).2.Fits) : s.Fits :=
  Fits.of_replace (Nat.le_of_eq (Slab.size_pop _ _).symm) (pop_eq s handle ▸ hf)

/-! ### Storing a value and taking one out -/

/-- The handle of a value that was stored leads to the value's slot. -/
theorem slot_fst_pushAt {i : Fin (1 <<< s.bits)} (hs : s.Sound) (hf : (s.pushAt i v).2.Fits) :
    s.shardOf (s.pushAt i v).1 = i ∧
      s.innerOf (s.pushAt i v).1 = ((s.shard i).push v).1 := by
  have hsize := ((s.fits_replace_iff _ _ _).1 (pushAt_eq s i v ▸ hf)).1
  have hfits := slot_lt i ((hs i).fst_push_lt v) hsize
  rw [pushAt_eq]
  exact ⟨shardOf_handleOf hfits, innerOf_handleOf hfits⟩

/-- A handle that is handed out is not in use. -/
theorem get?_fst_pushAt {i : Fin (1 <<< s.bits)} (hs : s.Sound) (hf : (s.pushAt i v).2.Fits) :
    s.get? (s.pushAt i v).1 = none := by
  obtain ⟨hshard, hinner⟩ := slot_fst_pushAt hs hf
  rw [get?_eq, hshard, hinner]
  exact (hs i).get?_fst_push v

theorem get?_fst_push (hs : s.Sound) (hf : (s.push v).2.Fits) : s.get? (s.push v).1 = none :=
  get?_fst_pushAt hs.advance hf

/-- A push adds its own handle to the lookups and changes no other. -/
theorem get?_pushAt {i : Fin (1 <<< s.bits)} (hs : s.Sound) (hf : (s.pushAt i v).2.Fits)
    (h : UInt64) :
    (s.pushAt i v).2.get? h = if h = (s.pushAt i v).1 then some v else s.get? h := by
  obtain ⟨hshard, hinner⟩ := slot_fst_pushAt hs hf
  have hslot : h = (s.pushAt i v).1 ↔
      s.shardOf h = i ∧ s.innerOf h = ((s.shard i).push v).1 :=
    ⟨fun heq ↦ heq ▸ ⟨hshard, hinner⟩, fun ⟨hh, hi⟩ ↦
      eq_of_slot_eq (hh.trans hshard.symm) (hi.trans hinner.symm)⟩
  have hget : (s.pushAt i v).2.get? h =
      if s.shardOf h = i then ((s.shard i).push v).2.get? (s.innerOf h) else s.get? h :=
    s.get?_replace _ _ _ h
  rw [hget, (hs i).get?_push v (s.innerOf h)]
  by_cases hh : s.shardOf h = i
  · rw [if_pos hh, get?_eq, hh]
    by_cases hi : s.innerOf h = ((s.shard i).push v).1
    · rw [if_pos hi, if_pos (hslot.2 ⟨hh, hi⟩)]
    · rw [if_neg hi, if_neg fun heq ↦ hi (hslot.1 heq).2]
  · rw [if_neg hh, if_neg fun heq ↦ hh (hslot.1 heq).1]

theorem get?_push (hs : s.Sound) (hf : (s.push v).2.Fits) (h : UInt64) :
    (s.push v).2.get? h = if h = (s.push v).1 then some v else s.get? h :=
  get?_pushAt hs.advance hf h

/-- Handle 0 is never in use. -/
theorem get?_zero (hs : s.Sound) : s.get? 0 = none := by
  have hinner : s.innerOf 0 = 0 := by rw [innerOf_eq, UInt64.toNat_zero, Nat.zero_div]
  rw [get?_eq, hinner]
  exact (hs (s.shardOf 0)).get?_zero

theorem fst_pushAt_ne_zero {i : Fin (1 <<< s.bits)} (hs : s.Sound) (hf : (s.pushAt i v).2.Fits) :
    (s.pushAt i v).1 ≠ 0 := fun hzero ↦ by
  have hget := get?_pushAt hs hf (s.pushAt i v).1
  rw [if_pos rfl, hzero, get?_zero (hs.pushAt i v)] at hget
  cases hget

theorem fst_push_ne_zero (hs : s.Sound) (hf : (s.push v).2.Fits) : (s.push v).1 ≠ 0 :=
  fst_pushAt_ne_zero hs.advance hf

/-- A pop answers what a lookup of the same handle would have. -/
theorem fst_pop (hs : s.Sound) (handle : UInt64) : (s.pop handle).1 = s.get? handle :=
  (hs (s.shardOf handle)).fst_pop (s.innerOf handle)

theorem pop_of_get?_eq_some (hs : s.Sound) (hget : s.get? handle = some v) :
    s.pop handle = (some v, (s.pop handle).2) :=
  Prod.ext ((fst_pop hs handle).trans hget) rfl

/-- A handle that is not in use changes nothing in any shard. -/
theorem pop_of_get?_eq_none (hget : s.get? handle = none) : s.pop handle = (none, s) := by
  have hpop : (s.shard (s.shardOf handle)).pop (s.innerOf handle) =
      (none, s.shard (s.shardOf handle)) := Slab.pop_of_get?_eq_none hget
  rw [pop_eq, hpop, replace_self]

/-- A pop removes its own handle from the lookups and changes no other. -/
theorem get?_pop (hs : s.Sound) (handle h : UInt64) :
    (s.pop handle).2.get? h = if h = handle then none else s.get? h := by
  have hget : (s.pop handle).2.get? h = if s.shardOf h = s.shardOf handle then
      ((s.shard (s.shardOf handle)).pop (s.innerOf handle)).2.get? (s.innerOf h) else s.get? h :=
    s.get?_replace _ _ _ h
  rw [hget, (hs _).get?_pop]
  by_cases hh : s.shardOf h = s.shardOf handle
  · rw [if_pos hh, get?_eq, hh]
    by_cases hi : s.innerOf h = s.innerOf handle
    · rw [if_pos hi, if_pos (eq_of_slot_eq hh hi)]
    · have hne : h ≠ handle := fun heq ↦ hi (by rw [heq])
      rw [if_neg hi, if_neg hne]
  · have hne : h ≠ handle := fun heq ↦ hh (by rw [heq])
    rw [if_neg hh, if_neg hne]

/-! ### Counting the values -/

/-- Setting one entry of a list of numbers moves the sum by the difference of that entry. -/
theorem sum_set_add {l : List Nat} {i : Nat} (hi : i < l.length) (a : Nat) :
    (l.set i a).sum + l[i] = l.sum + a := by
  induction l generalizing i with
  | nil => cases hi
  | cons b l ih =>
    cases i with
    | zero =>
      simp only [List.set_cons_zero, List.sum_cons, List.getElem_cons_zero]
      omega
    | succ i =>
      have hrest := ih (Nat.lt_of_succ_lt_succ hi)
      simp only [List.set_cons_succ, List.sum_cons, List.getElem_cons_succ]
      omega

/-- The slab's count follows the count of the replaced shard. -/
theorem len_replace (s : ShardedSlab α) (i : Fin (1 <<< s.bits)) (slab : Slab α) (cursor : UInt64) :
    (s.replace i slab cursor).len + (s.shard i).len = s.len + slab.len := by
  have hlens : (s.replace i slab cursor).shardLens = s.shardLens.set i slab.len := by
    rw [shardLens, shardLens, Vector.toList_set, List.map_set]
  have hi : (i : Nat) < s.shardLens.length := by simp [shardLens]
  have hget : s.shardLens[(i : Nat)] = (s.shard i).len := by
    simp only [shardLens, List.getElem_map, Vector.getElem_toList]
    rfl
  have hsum := sum_set_add hi slab.len
  rw [← hlens, hget] at hsum
  exact hsum

theorem len_pushAt (s : ShardedSlab α) (i : Fin (1 <<< s.bits)) (v : α) :
    (s.pushAt i v).2.len = s.len + 1 := by
  have hlen := s.len_replace i ((s.shard i).push v).2 s.cursor
  rw [Slab.len_push, ← Nat.add_assoc, Nat.add_right_comm] at hlen
  exact Nat.add_right_cancel hlen

theorem len_push (s : ShardedSlab α) (v : α) : (s.push v).2.len = s.len + 1 :=
  s.advance.2.len_pushAt s.nextShard v

theorem len_pop (hs : s.Sound) (hget : s.get? handle = some v) :
    (s.pop handle).2.len + 1 = s.len := by
  have hlen := s.len_replace (s.shardOf handle)
    ((s.shard (s.shardOf handle)).pop (s.innerOf handle)).2 s.cursor
  have hshard := (hs (s.shardOf handle)).len_pop hget
  show (s.replace (s.shardOf handle) ((s.shard (s.shardOf handle)).pop (s.innerOf handle)).2
    s.cursor).len + 1 = s.len
  omega

/-! ### The handles in use -/

/-- A list that has each handle in use once. -/
structure Lists (s : ShardedSlab α) (handles : List UInt64) : Prop where
  nodup : handles.Nodup
  mem_iff : ∀ h, h ∈ handles ↔ (s.get? h).isSome = true
  length_eq : handles.length = s.len

namespace Lists

variable {handles handles' : List UInt64}

/-- The order does not matter. -/
theorem perm (hl : s.Lists handles) (hperm : handles'.Perm handles) : s.Lists handles' where
  nodup := hperm.nodup_iff.2 hl.nodup
  mem_iff h := hperm.mem_iff.trans (hl.mem_iff h)
  length_eq := hperm.length_eq.trans hl.length_eq

theorem push (hl : s.Lists handles) (hs : s.Sound) (hf : (s.push v).2.Fits) :
    (s.push v).2.Lists ((s.push v).1 :: handles) where
  nodup := by
    refine List.nodup_cons.2 ⟨?_, hl.nodup⟩
    intro hmem
    have hused := (hl.mem_iff _).1 hmem
    rw [get?_fst_push hs hf] at hused
    cases hused
  mem_iff h := by
    rw [List.mem_cons, hl.mem_iff, get?_push hs hf]
    split <;> simp_all
  length_eq := by rw [List.length_cons, hl.length_eq, len_push]

/-- A handle in the list is in use, and the rest of the list remains when its value is taken out. -/
theorem pop (hl : s.Lists (handle :: handles)) (hs : s.Sound) :
    (∃ v, s.get? handle = some v ∧ (s.pop handle).1 = some v) ∧ (s.pop handle).2.Lists handles := by
  obtain ⟨hnotin, hnodup⟩ := List.nodup_cons.1 hl.nodup
  obtain ⟨v, hget⟩ := Option.isSome_iff_exists.1 ((hl.mem_iff handle).1 List.mem_cons_self)
  refine ⟨⟨v, hget, (fst_pop hs handle).trans hget⟩, hnodup, ?_, ?_⟩
  · intro h
    rw [get?_pop hs]
    split
    · next heq => simp [heq, hnotin]
    · next hne =>
      rw [← hl.mem_iff h, List.mem_cons]
      exact (or_iff_right hne).symm
  · have hlen := len_pop hs hget
    have hlength := hl.length_eq
    rw [List.length_cons] at hlength
    omega

end Lists

/-- What a turn does to a slab and to a list of its handles. -/
inductive Change (s : ShardedSlab α) (handles : List UInt64) :
    ShardedSlab α → List UInt64 → Prop where
  | keep {handles' : List UInt64} (hperm : handles'.Perm handles) : Change s handles s handles'
  | push {handles' : List UInt64} (v : α) (hperm : handles'.Perm ((s.push v).1 :: handles)) :
      Change s handles (s.push v).2 handles'
  | pop {handles' : List UInt64} (handle : UInt64) (hperm : handles.Perm (handle :: handles')) :
      Change s handles (s.pop handle).2 handles'

namespace Change

variable {s' : ShardedSlab α} {handles handles' : List UInt64}

theorem sound (hc : s.Change handles s' handles') (hs : s.Sound) : s'.Sound := by
  cases hc with
  | keep => exact hs
  | push v => exact hs.push v
  | pop handle => exact hs.pop handle

theorem fits (hc : s.Change handles s' handles') (hf : s'.Fits) : s.Fits := by
  cases hc with
  | keep => exact hf
  | push => exact hf.of_push
  | pop => exact hf.of_pop

/-- A list of the handles in use remains one. -/
theorem lists (hc : s.Change handles s' handles') (hs : s.Sound) (hf : s'.Fits)
    (hl : s.Lists handles) : s'.Lists handles' := by
  cases hc with
  | keep hperm => exact hl.perm hperm
  | push v hperm => exact (hl.push hs hf).perm hperm
  | pop handle hperm => exact ((hl.perm hperm.symm).pop hs).2

end Change

theorem get?_ofBits (bits : Nat) (h : UInt64) : (ofBits bits : ShardedSlab α).get? h = none := by
  have hshard := shard_ofBits (α := α) bits ((ofBits bits : ShardedSlab α).shardOf h)
  exact (congrArg (Slab.get? · _) hshard).trans (Slab.get?_empty _)

/-- A fresh slab lists no handle. -/
theorem lists_ofBits (bits : Nat) : (ofBits bits : ShardedSlab α).Lists [] where
  nodup := .nil
  mem_iff h := by simp [get?_ofBits]
  length_eq := by
    show 0 = (ofBits bits : ShardedSlab α).shardLens.sum
    simp [shardLens, ofBits, Slab.empty]

/-! ### How long a slab fits -/

/-- How large the shards are after a number of values were stored, since they take turns. -/
structure Paced (bits : Nat) (s : ShardedSlab α) (stored : Nat) : Prop where
  bits_eq : s.bits = bits
  cursor_mod_eq : s.cursor.toNat % 2 ^ s.bits = stored % 2 ^ s.bits
  size_lt : ∀ i, (s.shard i).slots.size * 2 ^ s.bits + i < stored + 2 * 2 ^ s.bits

namespace Paced

variable {bits stored : Nat}

theorem ofBits (bits : Nat) : Paced bits (ofBits bits : ShardedSlab α) 0 where
  bits_eq := rfl
  cursor_mod_eq := rfl
  size_lt i := by
    have hi : (i : Nat) < 2 ^ bits := lt_two_pow_bits i
    have hsize : ((ShardedSlab.ofBits bits : ShardedSlab α).shard i).slots.size = 1 := by
      rw [shard_ofBits bits i]
      rfl
    show _ * 2 ^ bits + (i : Nat) < 0 + 2 * 2 ^ bits
    rw [hsize]
    omega

/-- Replacing one shard keeps the pace as long as that shard's slots stay level with the pushes. -/
theorem replace (h : Paced bits s stored) {stored' : Nat} {i : Fin (1 <<< s.bits)} {slab : Slab α}
    {cursor : UInt64} (hcursor : cursor.toNat % 2 ^ s.bits = stored' % 2 ^ s.bits)
    (hle : stored ≤ stored')
    (hslab : slab.slots.size * 2 ^ s.bits + i < stored' + 2 * 2 ^ s.bits) :
    Paced bits (s.replace i slab cursor) stored' where
  bits_eq := h.bits_eq
  cursor_mod_eq := hcursor
  size_lt j := forall_shard_replace
    (P := fun j slab ↦ slab.slots.size * 2 ^ s.bits + j < stored' + 2 * 2 ^ s.bits) hslab
    (fun j _ ↦ Nat.lt_of_lt_of_le (h.size_lt j) (Nat.add_le_add_right hle _)) j

theorem pop (h : Paced bits s stored) (handle : UInt64) : Paced bits (s.pop handle).2 stored := by
  have hslab : ((s.shard (s.shardOf handle)).pop (s.innerOf handle)).2.slots.size * 2 ^ s.bits +
      s.shardOf handle < stored + 2 * 2 ^ s.bits := by
    rw [Slab.size_pop]
    exact h.size_lt _
  exact h.replace h.cursor_mod_eq (Nat.le_refl _) hslab

/-- A push spends one step of the cursor, which is what keeps the shards level. -/
theorem push (h : Paced bits s stored) (hbits : bits ≤ 64) (v : α) :
    Paced bits (s.push v).2 (stored + 1) := by
  have hcursor : (s.cursor + 1).toNat % 2 ^ s.bits = (stored + 1) % 2 ^ s.bits := by
    have hdvd : 2 ^ s.bits ∣ 2 ^ 64 := Nat.pow_dvd_pow 2 (h.bits_eq ▸ hbits)
    rw [UInt64.toNat_add, UInt64.toNat_one, Nat.mod_mod_of_dvd _ hdvd, Nat.add_mod, h.cursor_mod_eq,
      ← Nat.add_mod]
  -- A whole round has passed since the shard was last used, or the counter never came by.
  have hround : (s.shard s.nextShard).slots.size * 2 ^ s.bits + s.nextShard + 2 ^ s.bits ≤
      stored + 2 * 2 ^ s.bits := by
    have hmod : (s.nextShard : Nat) = stored % 2 ^ s.bits := by
      rw [nextShard, val_shardOf, h.cursor_mod_eq]
    have hlt := h.size_lt s.nextShard
    have hdiv := Nat.div_add_mod stored (2 ^ s.bits)
    have hsize : (s.shard s.nextShard).slots.size * 2 ^ s.bits <
        (stored / 2 ^ s.bits + 2) * 2 ^ s.bits := by
      rw [Nat.add_mul, Nat.mul_comm (stored / _)]
      omega
    have hrounds := Nat.mul_le_mul_right (2 ^ s.bits) (Nat.lt_of_mul_lt_mul_right hsize)
    rw [Nat.succ_mul, Nat.add_mul, Nat.mul_comm (stored / _)] at hrounds
    omega
  have hslab : ((s.shard s.nextShard).push v).2.slots.size * 2 ^ s.bits + s.nextShard <
      stored + 1 + 2 * 2 ^ s.bits :=
    calc ((s.shard s.nextShard).push v).2.slots.size * 2 ^ s.bits + s.nextShard
        ≤ ((s.shard s.nextShard).slots.size + 1) * 2 ^ s.bits + s.nextShard :=
          Nat.add_le_add_right (Nat.mul_le_mul_right _ (Slab.size_push_le _ v)) _
      _ = (s.shard s.nextShard).slots.size * 2 ^ s.bits + s.nextShard + 2 ^ s.bits := by
          rw [Nat.succ_mul, Nat.add_right_comm]
      _ < stored + 1 + 2 * 2 ^ s.bits := by omega
  exact h.replace hcursor (Nat.le_succ _) hslab

/-- A slab fits as long as not more values were stored than there are handles, but for one in each
shard. -/
theorem fits (h : Paced bits s stored) (hstored : stored + 2 ^ bits ≤ 2 ^ 64) : s.Fits := by
  have hbits : bits ≤ 64 := (Nat.pow_le_pow_iff_right (by omega)).1 (by omega : 2 ^ bits ≤ 2 ^ 64)
  obtain ⟨m, hm⟩ : 2 ^ s.bits ∣ 2 ^ 64 := Nat.pow_dvd_pow 2 (h.bits_eq ▸ hbits)
  intro i
  have hlt : (s.shard i).slots.size * 2 ^ s.bits < (m + 1) * 2 ^ s.bits := by
    have hi := h.size_lt i
    rw [← h.bits_eq] at hstored
    rw [Nat.succ_mul, Nat.mul_comm m, ← hm]
    omega
  have hle : (s.shard i).slots.size ≤ m := Nat.le_of_lt_succ (Nat.lt_of_mul_lt_mul_right hlt)
  calc (s.shard i).slots.size * 2 ^ s.bits ≤ m * 2 ^ s.bits := Nat.mul_le_mul_right _ hle
    _ = 2 ^ 64 := by rw [Nat.mul_comm, ← hm]

end Paced

end ShardedSlab

end RingCall
