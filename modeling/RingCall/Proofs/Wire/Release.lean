import Mathlib.Data.List.Perm.Basic
import RingCall.Proofs.Wire.RoundTrip

/-!
# Stored values come and go

Two values that are stored one after the other can be released in either order. Once the first is
released, the second is still read (`Heap.readAt_store_of_discard`), and once both are released the
heap is what it was (`Heap.discard_discard_store`).

A region is released by what it is, and regions without bytes may be equal: a value may have several
of them at one address, and the values stored behind it too. So which of them a release takes is
open. Nothing is read from them (`Memory.ofRegions_filter`), and the other regions of two values are
never equal (`Heap.not_mem_store_of_mem`).
-/

namespace RingCall.Wire

variable {h : Heap} {t u : Ty} {v : t.Value} {w : u.Value}

/-- Whether a region has any bytes. -/
def Region.isSolid (r : Region) : Bool := r.bytes.size != 0

namespace Memory

variable {rs others : List Region}

theorem addressable_ofRegions (hrs : ∀ r ∈ rs, r.stop ≤ 2 ^ 64) : (ofRegions rs).Addressable := by
  intro a ha
  obtain ⟨r, hr, hbyte⟩ := List.findSome?_isSome_iff.1 ha
  exact Nat.lt_of_lt_of_le (Region.mem_of_byte? hbyte).2 (hrs r hr)

/-- Regions without bytes hold nothing. -/
theorem ofRegions_filter (rs : List Region) : ofRegions (rs.filter Region.isSolid) =
    ofRegions rs := by
  funext a
  induction rs with
  | nil => rfl
  | cons r rs ih =>
    simp only [ofRegions] at ih ⊢
    rw [List.filter_cons, List.findSome?_cons]
    split
    · rw [List.findSome?_cons, ih]
    · next hsolid =>
      have hsize : r.bytes.size = 0 := by simpa [Region.isSolid] using hsolid
      have hnone : r.byte? a = none := by
        rw [← Option.not_isSome_iff_eq_none]
        intro hsome
        obtain ⟨hbase, hstop⟩ := Region.mem_of_byte? hsome
        rw [Region.stop, hsize] at hstop
        omega
      rw [hnone, ih]

/-- Which of the regions without bytes are released does not matter. -/
theorem filter_erase (rs : List Region) (r : Region) :
    (rs.erase r).filter Region.isSolid =
      if r.isSolid then (rs.filter Region.isSolid).erase r else rs.filter Region.isSolid := by
  induction rs with
  | nil => simp
  | cons x rs ih =>
    by_cases hx : x = r
    · subst hx
      cases hsolid : x.isSolid <;> simp [hsolid]
    · have hx' : (x == r) = false := beq_eq_false_iff_ne.2 hx
      rw [List.erase_cons_tail (by rw [hx']; exact Bool.false_ne_true), List.filter_cons, ih,
        List.filter_cons]
      cases hsolid : x.isSolid <;> cases hr : r.isSolid <;> simp [hx']

theorem filter_diff (rs released : List Region) :
    (rs.diff released).filter Region.isSolid =
      (rs.filter Region.isSolid).diff (released.filter Region.isSolid) := by
  induction released generalizing rs with
  | nil => simp
  | cons r released ih =>
    rw [List.diff_cons, ih, filter_erase, List.filter_cons]
    split
    · rw [List.diff_cons]
    · rfl

end Memory

/-- What was added last is taken from the front. -/
theorem diff_append_left {α : Type} [BEq α] [LawfulBEq α] (l others : List α) :
    (l ++ others).diff l = others := by
  induction l with
  | nil => simp
  | cons x l ih => rw [List.cons_append, List.diff_cons, List.erase_cons_head, ih]

/-- What is in front of the rest and not taken from it stays there. -/
theorem diff_append_append {α : Type} [BEq α] [LawfulBEq α] {before l : List α} (others : List α)
    (hne : ∀ x ∈ l, x ∉ before) : (before ++ (l ++ others)).diff l = before ++ others := by
  induction l with
  | nil => simp
  | cons x l ih =>
    rw [List.diff_cons, List.erase_append_right _ (hne x List.mem_cons_self), List.cons_append,
      List.erase_cons_head]
    exact ih fun y hy ↦ hne y (List.mem_cons_of_mem _ hy)

/-- A value is stored from the given address on. -/
theorem Ty.le_base_store {start : Nat} {r : Region} (hr : r ∈ (t.store v start).regions) :
    start ≤ r.base := by
  rcases List.mem_cons.1 hr with rfl | hr
  · exact (List.le_foldl_max (fun x ↦ x.2.stop) (t.place v start) start).1
  · obtain ⟨x, hx, rfl⟩ := List.mem_map.1 hr
    exact (pairwise_layOut (t.storage v) start).1 x hx

namespace Heap

theorem stop_le_top {r : Region} (hr : r ∈ h.regions) : r.stop ≤ h.top :=
  (List.le_foldl_max Region.stop h.regions floor).2 r hr

theorem regions_discard (h : Heap) (p : Placed) : (h.discard p).regions =
    h.regions.diff p.regions := by
  rw [discard, List.diff_eq_foldl]
  generalize p.regions = rs
  induction rs generalizing h with
  | nil => rfl
  | cons r rs ih => exact ih (h.release r)

/-- Two values that are stored one after the other have no region with bytes in common. -/
theorem not_mem_store_of_mem {r : Region} (hsolid : r.isSolid = true)
    (hr : r ∈ (h.store t v).1.regions) : r ∉ ((h.store t v).2.store u w).1.regions := by
  intro hmem
  have hstop : r.stop ≤ (h.store t v).2.top := stop_le_top (List.mem_append_left _ hr)
  have hbase := Ty.le_base_store hmem
  have hsize : r.bytes.size ≠ 0 := bne_iff_ne.1 hsolid
  rw [Region.stop] at hstop
  omega

/-- A value that was stored last leaves the heap as it was. -/
theorem discard_store (h : Heap) (t : Ty) (v : t.Value) :
    (h.store t v).2.discard (h.store t v).1 = h :=
  congrArg Heap.mk ((regions_discard _ _).trans (diff_append_left _ _))

/-- Two values that were stored leave the heap as it was, whichever is released first. -/
theorem discard_discard_store (h : Heap) (t : Ty) (v : t.Value) (u : Ty) (w : u.Value) :
    (((h.store t v).2.store u w).2.discard (h.store t v).1).discard
    ((h.store t v).2.store u w).1 = h := by
  refine congrArg Heap.mk ((regions_discard _ _).trans ?_)
  rw [regions_discard, ← List.diff_append, List.perm_append_comm.diff_left, List.diff_append]
  exact (congrArg (List.diff · _) (diff_append_left _ _)).trans (diff_append_left _ _)

/-- The memory of a value does not depend on one that was stored before it. -/
theorem memory_discard_store (h : Heap) (t : Ty) (v : t.Value) (u : Ty) (w : u.Value) :
    (((h.store t v).2.store u w).2.discard (h.store t v).1).memory =
      Memory.ofRegions (((h.store t v).2.store u w).1.regions ++ h.regions) := by
  rw [memory, ← Memory.ofRegions_filter, regions_discard, Memory.filter_diff]
  have hregions : ((h.store t v).2.store u w).2.regions =
      ((h.store t v).2.store u w).1.regions ++ ((h.store t v).1.regions ++ h.regions) := rfl
  rw [hregions, List.filter_append, List.filter_append, diff_append_append, ← List.filter_append,
    Memory.ofRegions_filter]
  intro r hr hmem
  obtain ⟨hr, hsolid⟩ := List.mem_filter.1 hr
  exact not_mem_store_of_mem hsolid hr (List.mem_filter.1 hmem).1

/-- A value is still read after one that was stored before it has been released. -/
theorem readAt_store_of_discard (hcount : u.Countable w)
    (htop : ((h.store t v).2.store u w).2.top ≤ 2 ^ 64) :
    u.readAt (((h.store t v).2.store u w).2.discard (h.store t v).1).memory
      (UInt64.ofNat ((h.store t v).2.store u w).1.refAddress).toNat = .ok w := by
  have hm :
      (Memory.ofRegions (((h.store t v).2.store u w).1.regions ++ h.regions)).Addressable := by
    refine Memory.addressable_ofRegions fun r hr ↦ Nat.le_trans (stop_le_top ?_) htop
    rcases List.mem_append.1 hr with hr | hr
    · exact List.mem_append_left _ hr
    · exact List.mem_append_right _ (List.mem_append_right _ hr)
  have hbuffer := Memory.holds_ofRegions (u.pairwise_apart_store w (h.store t v).2.top)
    List.mem_cons_self h.regions
  rw [memory_discard_store]
  exact Ty.readAt_flatten hcount hm hbuffer (u.holds_storage w (h.store t v).2.top h.regions)

end Heap

end RingCall.Wire
