import Mathlib.Algebra.Ring.Nat
import Mathlib.Order.CompletePartialOrder
import Mathlib.Order.Interval.Set.Disjoint
import RingCall.Proofs.Shared.Mapping
import RingCall.Proofs.Shared.Store
import RingCall.Ring.Basic
import RingCall.Shared.Partition

/-!
# Slots lie inside their memory

Where a ring's memory was made, the bytes of each slot lie behind the control block and inside what
is mapped, at an address that suits the records, and no two slots share a byte
(`Partition.slots_of_allocate`). The other end can map just as much by the descriptor. A ring for
which any of this could fail is refused before the operating system is asked for anything.

The size of a ring's memory is computed three times: when it is planned, when it is rounded up to
whole cache lines, and when the other end is told how much to map. The first is the third
(`Partition.plan_eq_ok`), and the second is no less than the first (`System.Documented.of_create`).
-/

namespace RingCall.Shared

/-! ### Slots and their offsets -/

/-- A record is as large as a multiple of its alignment, which is a power of two. -/
structure Extent.IsRegular (e : Extent) : Prop where
  align_eq : ∃ n, e.align = 2 ^ n
  dvd : e.align ∣ e.size

section Slots

variable {capacity recordSize : Nat}

/-- A ring stores and takes the record of a counter at the counter's offset. -/
theorem slotOffset_eq {α : Type} {r : Ring α} (h : r.capacity.toNat = capacity) (recordSize : Nat)
    (k : UInt64) : slotOffset capacity recordSize k = bufferOffset + r.slot k * recordSize := by
  rw [← h]
  rfl

/-- The slots end where the memory that was asked for does. -/
theorem slotOffset_add_le (hpos : 0 < capacity) (recordSize : Nat) (k : UInt64) :
    slotOffset capacity recordSize k + recordSize ≤ regionSize capacity recordSize := by
  have hlt : k.toNat % capacity + 1 ≤ capacity := Nat.mod_lt _ hpos
  calc slotOffset capacity recordSize k + recordSize
      = bufferOffset + (k.toNat % capacity + 1) * recordSize := by
        rw [slotOffset, Nat.succ_mul, Nat.add_assoc]
    _ ≤ bufferOffset + capacity * recordSize :=
        Nat.add_le_add_left (Nat.mul_le_mul_right _ hlt) _

/-- A slot ends before one at a later place starts. -/
theorem slotOffset_add_le_of_lt {k k' : UInt64} (hlt : k.toNat % capacity < k'.toNat % capacity) :
    slotOffset capacity recordSize k + recordSize ≤ slotOffset capacity recordSize k' := by
  have hmul := Nat.mul_le_mul_right recordSize (Nat.succ_le_of_lt hlt)
  rw [Nat.succ_mul] at hmul
  rw [slotOffset, slotOffset]
  omega

/-- The bytes of a slot. -/
def slotBytes (capacity recordSize : Nat) (k : UInt64) : Set Nat :=
  Set.Ico (slotOffset capacity recordSize k) (slotOffset capacity recordSize k + recordSize)

/-- Slots of different numbers have no byte in common. -/
theorem disjoint_slotBytes {k k' : UInt64} (hne : k.toNat % capacity ≠ k'.toNat % capacity) :
    Disjoint (slotBytes capacity recordSize k) (slotBytes capacity recordSize k') := by
  rcases Nat.lt_or_gt_of_ne hne with hlt | hgt
  · exact Set.Ico_disjoint_Ico.2 (Nat.le_trans (Nat.min_le_left _ _)
      (Nat.le_trans (slotOffset_add_le_of_lt hlt) (Nat.le_max_right _ _)))
  · exact Set.Ico_disjoint_Ico.2 (Nat.le_trans (Nat.min_le_right _ _)
      (Nat.le_trans (slotOffset_add_le_of_lt hgt) (Nat.le_max_left _ _)))

/-- Slots are aligned as the records are, wherever a cache line starts. -/
theorem dvd_add_slotOffset {record : Extent} (hr : record.IsRegular)
    (hle : record.align ≤ Extent.lineSize) {base : Nat} (hbase : Extent.lineSize ∣ base)
    (k : UInt64) :
    record.align ∣ base + slotOffset capacity record.size k := by
  obtain ⟨n, hn⟩ := hr.align_eq
  have hline : record.align ∣ Extent.lineSize := by
    have hpow : Extent.lineSize = 2 ^ 7 := rfl
    rw [hn, hpow] at hle ⊢
    exact Nat.pow_dvd_pow 2 ((Nat.pow_le_pow_iff_right Nat.one_lt_two).1 hle)
  have hbuffer : record.align ∣ bufferOffset := Nat.dvd_trans hline (dvd_roundUp _ _)
  exact Nat.dvd_add (Nat.dvd_trans hline hbase)
    (Nat.dvd_add hbuffer (Nat.dvd_mul_left_of_dvd hr.dvd _))

end Slots

namespace Partition

variable {σ : Type} {os : System σ} {s s' : σ} {record : Extent} {capacity size : Nat}
  {name : Option String} {p : Partition}

/-- A plan fails or says how large the region is. -/
theorem plan_eq (record : Extent) (capacity : Nat) :
    plan record capacity = if capacity = 0 then .error .emptyRing
      else if Extent.lineSize < record.align then .error (.alignment record.align)
      else if Shared.regionSize capacity record.size < UInt64.size
        then .ok (Shared.regionSize capacity record.size)
      else .error (.ringOverflow capacity record.size) := rfl

/-- What is planned is what the other end has to map. -/
theorem plan_eq_ok (h : plan record capacity = .ok size) :
    0 < capacity ∧ record.align ≤ Extent.lineSize ∧ size = Shared.regionSize capacity record.size ∧
      size < UInt64.size := by
  rw [plan_eq] at h
  split at h
  · cases h
  · next hcapacity =>
    split at h
    · cases h
    · next halign =>
      split at h
      · next hsize =>
        obtain rfl := Except.ok.inj h
        exact ⟨Nat.pos_of_ne_zero hcapacity, Nat.le_of_not_lt halign, rfl, hsize⟩
      · cases h

/-- What a ring is refused for before there is any memory. -/
theorem exists_plan_eq_error (h : capacity = 0 ∨ Extent.lineSize < record.align ∨
      UInt64.size ≤ capacity * record.size + bufferOffset) :
    ∃ e ∈ [IoError.emptyRing, .alignment record.align, .ringOverflow capacity record.size],
      plan record capacity = .error e := by
  rw [plan_eq]
  split
  · exact ⟨_, by simp, rfl⟩
  · next hcapacity =>
    split
    · exact ⟨_, by simp, rfl⟩
    · next halign =>
      have hsize := (h.resolve_left hcapacity).resolve_left halign
      rw [Nat.add_comm] at hsize
      exact ⟨_, by simp, if_neg (Nat.not_lt_of_le hsize)⟩

/-- A ring that is refused for none of these causes is planned. -/
theorem plan_eq_ok_of_not (h : ¬(capacity = 0 ∨ Extent.lineSize < record.align ∨
      UInt64.size ≤ capacity * record.size + bufferOffset)) :
    plan record capacity = .ok (Shared.regionSize capacity record.size) := by
  obtain ⟨hcapacity, halign, hsize⟩ := by simpa only [not_or] using h
  rw [Nat.add_comm] at hsize
  rw [plan_eq, if_neg hcapacity, if_neg halign]
  exact if_pos (Nat.lt_of_not_le hsize)

/-- Nothing is allocated if there is no plan. -/
theorem allocate_of_plan_eq_error {e : IoError} (h : plan record capacity = .error e)
    (os : System σ) (name : Option String) (s : σ) :
    allocate os record capacity name s = (.error e, s) := by
  rw [allocate, h]

/-- A ring that is planned fails for want of memory, or for where it was mapped. -/
theorem allocate_of_plan_eq_ok (h : plan record capacity = .ok size) (os : System σ)
    (name : Option String) (s : σ) :
    allocate os record capacity name s = match os.create (.ofNat size) name s with
      | (.error cause, s) => (.error (.ringMemory capacity record.size cause), s)
      | (.ok mapping, s) =>
        if mapping.address.toNat % Extent.lineSize ≠ 0 then
          (.error .misaligned, (os.unmap mapping s).2)
        else (.ok ⟨mapping, capacity, record⟩, s) := by
  rcases hcreate : os.create (.ofNat size) name s with ⟨cause | mapping, s'⟩
  · simp only [allocate, h, hcreate]
  · simp only [allocate, h, hcreate]

/-- The memory of a ring was planned, made and found to start with a cache line. -/
theorem allocate_eq_ok (h : allocate os record capacity name s = (.ok p, s')) :
    plan record capacity = .ok p.regionSize ∧
      os.create (.ofNat p.regionSize) name s = (.ok p.mapping, s') ∧
      Extent.lineSize ∣ p.mapping.address.toNat := by
  rcases hplan : plan record capacity with e | size
  · rw [allocate_of_plan_eq_error hplan] at h
    cases h
  · rw [allocate_of_plan_eq_ok hplan] at h
    split at h
    · cases h
    · next mapping made hcreate =>
      split at h
      · cases h
      · next hline =>
        obtain ⟨hp, rfl⟩ := Prod.mk.inj h
        obtain rfl := Except.ok.inj hp
        obtain rfl := (plan_eq_ok hplan).2.2.1
        exact ⟨rfl, hcreate, Nat.dvd_of_mod_eq_zero (not_not.1 hline)⟩

/-- **Slots lie inside their memory.** On an operating system that does what it is documented to do:
where the memory of a ring was made for records of a regular extent, the slot of any counter lies
behind the control block and inside what is mapped, at an address that suits the records, and slots
at different places share no byte. The size that the other end is told is a machine word and no more
than what is mapped. So as long as the ring's descriptor leads to a file of the mapped size, as it
does when the ring was made, the other end can map the ring by it, if it has a descriptor left and
the room, and then finds the slots aligned as well.

A ring without slots, records that need a stricter alignment than a cache line, and a size that is
no machine word are what is refused before an operating system is asked for anything: whatever it is
like, its state stays as it is. -/
theorem slots_of_allocate {view : System.View σ} (hos : os.Documented view) (hr : record.IsRegular)
    (capacity : Nat) :
    (∀ s s' name p, allocate os record capacity name s = (.ok p, s') →
      (∀ k, Layout.control.extent.size ≤ slotOffset capacity record.size k ∧
        slotOffset capacity record.size k + record.size ≤ p.mapping.size.toNat ∧
        record.align ∣ p.mapping.address.toNat + slotOffset capacity record.size k) ∧
      (∀ k k', k.toNat % capacity ≠ k'.toNat % capacity →
        Disjoint (slotBytes capacity record.size k) (slotBytes capacity record.size k')) ∧
      (∀ (α : Type) (r : Ring α), r.capacity.toNat = capacity → ∀ k,
        slotOffset capacity record.size k = bufferOffset + r.slot k * record.size) ∧
      p.regionSize < UInt64.size ∧ p.regionSize ≤ p.mapping.size.toNat ∧
      p.mapping.address.toNat + p.mapping.size.toNat ≤ UInt64.size ∧
      view.size? s' p.mapping.handle = some p.mapping.size.toInt64 ∧
      ∀ later, view.size? later p.mapping.handle = some p.mapping.size.toInt64 →
        view.HasHandle later → view.HasRoom later p.mapping.size →
        ∃ m later', os.attach p.mapping.handle (.ofNat p.regionSize) later = (.ok m, later') ∧
          m.size = p.mapping.size ∧
          ∀ k, record.align ∣ m.address.toNat + slotOffset capacity record.size k) ∧
    ((capacity = 0 ∨ Extent.lineSize < record.align ∨
        UInt64.size ≤ capacity * record.size + bufferOffset) ↔
      ∃ e ∈ [IoError.emptyRing, .alignment record.align, .ringOverflow capacity record.size],
        ∀ (τ : Type) (os : System τ) name s, allocate os record capacity name s =
          (.error e, s)) := by
  refine ⟨fun s s' name p h ↦ ?_, fun h ↦ ?_, ?_⟩
  · obtain ⟨hplan, hcreate, hline⟩ := allocate_eq_ok h
    obtain ⟨hpos, halign, hsize, hword⟩ := plan_eq_ok hplan
    obtain ⟨hle, hne, -, -, hroom, hfile⟩ := hos.of_create hcreate
    rw [UInt64.toNat_ofNat_of_lt' hword] at hle
    refine ⟨fun k ↦ ⟨Nat.le_add_right _ _, ?_, dvd_add_slotOffset hr halign hline k⟩,
      fun k k' ↦ disjoint_slotBytes, fun α r hr ↦ slotOffset_eq hr record.size, hword, hle, hroom,
      hfile, fun later hlater hhandle hspace ↦ ?_⟩
    · exact Nat.le_trans (slotOffset_add_le hpos record.size k) (hsize ▸ hle)
    · have hexpected : (UInt64.ofNat p.regionSize).toNat ≤ p.mapping.size.toNat := by
        rwa [UInt64.toNat_ofNat_of_lt' hword]
      obtain ⟨m, later', hattach, hm, hpage⟩ := hos.attach hlater hexpected hne hhandle hspace
      have hbase : Extent.lineSize ∣ m.address.toNat := Nat.dvd_trans ⟨32, rfl⟩ hpage
      exact ⟨m, later', hattach, hm, fun k ↦ dvd_add_slotOffset hr halign hbase k⟩
  · obtain ⟨e, he, hplan⟩ := exists_plan_eq_error h
    exact ⟨e, he, fun τ os name s ↦ allocate_of_plan_eq_error hplan os name s⟩
  · rintro ⟨e, he, hall⟩
    by_contra hfits
    -- a ring that is planned can only fail for want of memory
    have herror := hall Store Store.system none .empty
    rw [allocate_of_plan_eq_ok (plan_eq_ok_of_not hfits)] at herror
    split at herror
    · obtain rfl := Except.error.inj (Prod.mk.inj herror).1
      simp at he
    · split at herror
      · obtain rfl := Except.error.inj (Prod.mk.inj herror).1
        simp at he
      · cases herror

/-- Three records are allocated, and the sixth one lies in the last slot. -/
theorem slots_of_allocate_three :
    Store.system.Documented Store.view ∧ Layout.record.extent.IsRegular ∧
    ∃ p s', allocate Store.system Layout.record.extent 3 none .empty = (.ok p, s') ∧
      p.mapping = ⟨4096, 512, 3⟩ ∧
      (slotOffset 3 32 5 + 32 ≤ 512 ∧ 8 ∣ 4096 + slotOffset 3 32 5) ∧
      Disjoint (slotBytes 3 32 5) (slotBytes 3 32 6) ∧
      (∃ m later, Store.system.attach 3 480 s' = (.ok m, later) ∧ m.size = 512) ∧
      ∃ e, ∀ (τ : Type) (os : System τ) name s,
        allocate os Layout.record.extent 0 name s = (.error e, s) := by
  have hr : Layout.record.extent.IsRegular := ⟨⟨3, rfl⟩, ⟨4, rfl⟩⟩
  refine ⟨Store.documented, hr, ⟨⟨4096, 512, 3⟩, 3, ⟨32, 8⟩⟩, _, rfl, rfl, ?_⟩
  obtain ⟨hslots, hdisjoint, -, -, -, -, hfile, hattach⟩ :=
    (slots_of_allocate Store.documented hr 3).1 .empty _ none _ rfl
  obtain ⟨-, hle, hdvd⟩ := hslots 5
  have hhandle : 4 < Store.handleLimit := by decide
  have hroom : 2 * Store.pageSize + 512 ≤ Store.addressSpace := by decide
  obtain ⟨m, later, heq, hm, -⟩ := hattach _ hfile hhandle hroom
  obtain ⟨e, -, herror⟩ := (slots_of_allocate Store.documented hr 0).2.1 (.inl rfl)
  exact ⟨⟨hle, hdvd⟩, hdisjoint 5 6 (by decide), ⟨m, later, heq, hm⟩, e, herror⟩

end Partition

end RingCall.Shared
