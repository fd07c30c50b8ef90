import Mathlib.Data.Nat.Bitwise
import RingCall.Shared.Mapping

/-!
# What shared memory relies on

An operating system may refuse whatever it is asked for. Where it answers, it does so as documented
(`System.Documented`): a file that was resized has its size, every descriptor of a file tells it,
and a mapping has an address at which a page starts.

So a mapping that was made has whole cache lines, and at least as many bytes as were asked for
(`System.Documented.of_create`). As long as its descriptor leads to a file of this size, the file
can be mapped again, if the system has a descriptor and the room for it
(`System.Documented.attach`).
-/

namespace RingCall.Shared

/-! ### Rounding up -/

/-- A size that is rounded up is a multiple. -/
theorem dvd_roundUp (n align : Nat) : align ∣ roundUp n align := Nat.dvd_mul_left _ _

/-- Clearing the last seven bits rounds down to a line. -/
theorem toNat_and_not_line (x : UInt64) : (x &&& ~~~127).toNat = x.toNat / 128 * 128 := by
  have hmask : (~~~127 : UInt64).toNat = (2 ^ 57 - 1) * 2 ^ 7 := by decide
  have hline : x.toNat / 128 * 128 = x.toNat / 2 ^ 7 * 2 ^ 7 := rfl
  rw [UInt64.toNat_and, hmask, hline]
  refine Nat.eq_of_testBit_eq fun i ↦ ?_
  rw [Nat.testBit_and, Nat.testBit_mul_two_pow, Nat.testBit_mul_two_pow, Nat.testBit_div_two_pow,
    Nat.testBit_two_pow_sub_one]
  by_cases hlow : 7 ≤ i
  · by_cases hhigh : i < 64
    · have hlt : i - 7 < 57 := by omega
      simp [hlow, hlt]
    · have hzero : x.toNat.testBit i = false :=
        Nat.testBit_lt_two_pow (Nat.lt_of_lt_of_le x.toNat_lt
          (Nat.pow_le_pow_right Nat.two_pos (Nat.le_of_not_lt hhigh)))
      rw [Nat.sub_add_cancel hlow, hzero, Bool.false_and, Bool.and_false]
  · simp [hlow]

/-- The size of a region is a multiple of a line. -/
theorem dvd_alignRegion (n : UInt64) : Extent.lineSize ∣ (alignRegion n).toNat := by
  rw [alignRegion, toNat_and_not_line]
  exact Nat.dvd_mul_left _ _

/-- A size that is rounded up does not get smaller, unless nothing is left of it. -/
theorem le_alignRegion {n : UInt64} (h : alignRegion n ≠ 0) : n.toNat ≤ (alignRegion n).toNat := by
  have hne : (alignRegion n).toNat ≠ 0 := fun hzero ↦ h (UInt64.toNat_inj.1 hzero)
  have hsum : (n + 127).toNat = (n.toNat + 127) % 2 ^ 64 := UInt64.toNat_add n 127
  rw [alignRegion, toNat_and_not_line, hsum] at hne ⊢
  by_cases hfits : n.toNat + 127 < 2 ^ 64
  · rw [Nat.mod_eq_of_lt hfits]
    omega
  · -- a sum that wraps around is less than a cache line
    have hlt := n.toNat_lt
    omega

namespace System

variable {σ : Type} {os : System σ} {s s' : σ} {handle : Int32} {size n : UInt64}
  {name : Option String} {m : Mapping}

/-- What can be told of an operating system's state. -/
structure View (σ : Type) where
  /-- The size of the file behind a descriptor, if this is open. -/
  size? : σ → Int32 → Option Int64
  /-- Whether another descriptor can be opened. -/
  HasHandle : σ → Prop
  /-- Whether so many bytes can be mapped. -/
  HasRoom : σ → UInt64 → Prop

/-- The bytes of a page. -/
def pageSize : Nat := 4096

/-- An operating system does what it is documented to do. -/
structure Documented (os : System σ) (view : View σ) : Prop where
  /-- A file that was resized has its new size. -/
  size?_ftruncate : ∀ {handle size s s'}, os.ftruncate handle size s = (.ok (), s') →
    view.size? s' handle = some size
  /-- The size of a file is told. -/
  fstat_eq : ∀ {handle size s}, view.size? s handle = some size → os.fstat handle s = .ok size
  /-- As long as descriptors are left, another one can be opened for a file. -/
  duplicate_eq : ∀ {handle size s}, view.size? s handle = some size → view.HasHandle s →
    ∃ own s', os.duplicate handle s = (.ok own, s') ∧ view.size? s' own = some size ∧
      ∀ n, view.HasRoom s n → view.HasRoom s' n
  /-- As long as there is room, a file can be mapped, unless no bytes of it are asked for. -/
  mmap_eq : ∀ {handle size n s}, view.size? s handle = some size → n ≠ 0 → view.HasRoom s n →
    ∃ address s', os.mmap handle n s = (.ok address, s')
  /-- A mapping has bytes. It starts with a page, but not the first one, and its bytes have
  addresses. The sizes of files stay as they are. -/
  of_mmap : ∀ {handle n s address s'}, os.mmap handle n s = (.ok address, s') →
    n ≠ 0 ∧ address ≠ 0 ∧ pageSize ∣ address.toNat ∧ address.toNat + n.toNat ≤ 2 ^ 64 ∧
      ∀ other, view.size? s' other = view.size? s other

/-- A file is mapped where the operating system says. -/
theorem mapFile_eq_ok {address : UInt64} (h : os.mapFile handle n s = (.ok address, s')) :
    os.mmap handle n s = (.ok address, s') := by
  rw [mapFile] at h
  split at h
  · cases h
  · next hmap =>
    split at h
    · cases h
    · obtain ⟨haddress, rfl⟩ := Prod.mk.inj h
      obtain rfl := Except.ok.inj haddress
      exact hmap

/-- A mapping that was made had its file opened, resized and mapped. -/
theorem create_eq_ok (h : os.create size name s = (.ok m, s')) :
    m.size = alignRegion size ∧ ∃ opened resized,
      os.memfdCreate (Text.utf8 (name.getD defaultName)) s = (.ok m.handle, opened) ∧
      os.ftruncate m.handle m.size.toInt64 opened = (.ok (), resized) ∧
      os.mmap m.handle m.size resized = (.ok m.address, s') := by
  rw [create] at h
  split at h
  · cases h
  · simp only at h
    split at h
    · cases h
    · split at h
      · cases h
      · next handle opened hcreate =>
        split at h
        · cases h
        · next resized htruncate =>
          split at h
          · cases h
          · next address mapped hmap =>
            obtain ⟨hm, rfl⟩ := Prod.mk.inj h
            obtain rfl := Except.ok.inj hm
            exact ⟨rfl, opened, resized, hcreate, htruncate, mapFile_eq_ok hmap⟩

namespace Documented

variable {view : View σ}

/-- A mapping that was made with its file has whole cache lines, at least as many bytes as were
asked for, and a descriptor for a file of just this size. -/
theorem of_create (hos : os.Documented view) (h : os.create size name s = (.ok m, s')) :
    size.toNat ≤ m.size.toNat ∧ m.size ≠ 0 ∧ Extent.lineSize ∣ m.size.toNat ∧
      pageSize ∣ m.address.toNat ∧ m.address.toNat + m.size.toNat ≤ 2 ^ 64 ∧
      view.size? s' m.handle = some m.size.toInt64 := by
  obtain ⟨hsize, opened, resized, -, htruncate, hmap⟩ := create_eq_ok h
  obtain ⟨hne, -, hpage, hroom, hsame⟩ := hos.of_mmap hmap
  refine ⟨?_, hne, ?_, hpage, hroom, (hsame m.handle).trans (hos.size?_ftruncate htruncate)⟩
  · rw [hsize] at hne ⊢
    exact le_alignRegion hne
  · rw [hsize]
    exact dvd_alignRegion size

/-- A file can be mapped by its descriptor, if no more bytes are expected than it has. -/
theorem attach (hos : os.Documented view) (hsize : view.size? s handle = some n.toInt64)
    {expected : UInt64} (hle : expected.toNat ≤ n.toNat) (hne : n ≠ 0) (hhandle : view.HasHandle s)
    (hroom : view.HasRoom s n) :
    ∃ m s', os.attach handle expected s = (.ok m, s') ∧ m.size = n ∧
      pageSize ∣ m.address.toNat := by
  obtain ⟨own, opened, hdup, hown, hkeeps⟩ := hos.duplicate_eq hsize hhandle
  obtain ⟨address, mapped, hmap⟩ := hos.mmap_eq hown hne (hkeeps n hroom)
  obtain ⟨-, haddress, hpage, -⟩ := hos.of_mmap hmap
  have hactual : n.toInt64.toUInt64 = n := UInt64.toUInt64_toInt64 n
  have hfits : ¬(n < expected ∨ n = 0) := by
    rintro (hlt | hzero)
    · exact absurd (UInt64.lt_iff_toNat_lt.1 hlt) (Nat.not_lt_of_le hle)
    · exact hne hzero
  refine ⟨⟨address, n, own⟩, mapped, ?_, rfl, hpage⟩
  simp only [System.attach, hdup, hos.fstat_eq hown, hactual, if_neg hfits, mapFile, hmap,
    if_neg haddress]

end Documented

end System

end RingCall.Shared
