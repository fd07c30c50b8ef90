import RingCall.Proofs.Shared.Mapping
import RingCall.Shared.Store

/-!
# A system in memory does what is documented

What is relied on of an operating system (`System.Documented`) can be had: the system whose files
are values is one (`Store.documented`).
-/

namespace RingCall.Shared.Store

/-- What can be told of a store. -/
def view : System.View Store where
  size? s handle := (s.place? handle).map fun place ↦ (s.files place).size
  HasHandle s := s.nextHandle < handleLimit
  HasRoom s n := s.nextAddress + n.toNat ≤ addressSpace

variable {s s' : Store} {place : Nat} {size : Int64} {n : UInt64}

/-- The size behind a handle is that of the file that it refers to. -/
theorem size?_eq_some_iff {handle : Int32} : view.size? s handle = some size ↔
    ∃ place, s.place? handle = some place ∧ (s.files place).size = size :=
  Option.map_eq_some_iff

/-- As long as descriptors are left, one more is opened. Nothing else changes. -/
theorem openHandle_of_lt (h : s.nextHandle < handleLimit) (place : Nat) :
    s.openHandle place = (.ok (.ofNat s.nextHandle), { s with
      handles := (.ofNat s.nextHandle, place) :: s.handles, nextHandle := s.nextHandle + 1 }) :=
  if_pos h

/-- A mapping can be added while addresses are left. -/
theorem exists_addMapping_eq_ok (h : s.nextAddress + n.toNat ≤ addressSpace) (place : Nat) :
    ∃ address s', s.addMapping place n = (.ok address, s') := ⟨_, _, if_pos h⟩

/-- A mapping lies behind those that were made before it. -/
theorem addMapping_eq_ok {address : UInt64} (h : s.addMapping place n = (.ok address, s')) :
    address.toNat = s.nextAddress ∧ s.nextAddress + n.toNat ≤ addressSpace ∧
      s'.handles = s.handles ∧ s'.files = s.files := by
  rw [addMapping] at h
  split at h
  · next hroom =>
    obtain ⟨haddress, rfl⟩ := Prod.mk.inj h
    obtain rfl := Except.ok.inj haddress
    have hlt : s.nextAddress < UInt64.size :=
      Nat.lt_of_le_of_lt (Nat.le_of_add_right_le hroom) (by decide)
    exact ⟨UInt64.toNat_ofNat_of_lt' hlt, hroom, rfl, rfl⟩
  · cases h

/-- **A system in memory does what an operating system is documented to do.** -/
theorem documented : system.Documented view where
  size?_ftruncate {handle size s s'} h := by
    simp only [system] at h
    split at h
    · cases h
    · next place hplace =>
      split at h
      · cases h
      · obtain ⟨-, rfl⟩ := Prod.mk.inj h
        exact size?_eq_some_iff.2 ⟨place, hplace, congrArg File.size (if_pos rfl)⟩
  fstat_eq {handle size s} h := by
    obtain ⟨place, hplace, rfl⟩ := size?_eq_some_iff.1 h
    simp only [system, hplace]
  duplicate_eq {handle size s} h hhandle := by
    obtain ⟨place, hplace, rfl⟩ := size?_eq_some_iff.1 h
    have hopen := openHandle_of_lt hhandle place
    simp only [system, hplace]
    exact ⟨_, _, hopen, size?_eq_some_iff.2 ⟨place, List.lookup_cons_self, rfl⟩,
      fun _ hroom ↦ hroom⟩
  mmap_eq {handle size n s} h hne hroom := by
    obtain ⟨place, hplace, -⟩ := size?_eq_some_iff.1 h
    simp only [system, hplace, if_neg hne]
    exact exists_addMapping_eq_ok hroom place
  of_mmap {handle n s address s'} h := by
    simp only [system] at h
    split at h
    · cases h
    · split at h
      · cases h
      · next hne =>
        obtain ⟨haddress, hroom, hhandles, hfiles⟩ := addMapping_eq_ok h
        -- the first page is left out
        have hpos : 0 < address.toNat :=
          haddress ▸ Nat.mul_pos (Nat.succ_pos _) (by decide)
        refine ⟨hne, fun hzero ↦ ?_, haddress ▸ Nat.dvd_mul_left _ _, ?_, fun other ↦ ?_⟩
        · rw [hzero] at hpos
          cases hpos
        · rw [haddress]
          exact Nat.le_trans hroom (by decide)
        · simp only [view, place?, hhandles, hfiles]

end RingCall.Shared.Store
