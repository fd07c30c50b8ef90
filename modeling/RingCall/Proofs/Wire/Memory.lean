import Mathlib.Algebra.Ring.Nat
import RingCall.Proofs.Text.Utf8
import RingCall.Wire.Decode

/-!
# Reading what a memory holds

`Memory.Holds` says that a memory has given bytes from an address on. It splits along appended bytes
(`holds_append_iff`), it can be computed (`holds_iff_read?`), and what is held is what is read:
words, references, text and scalars are read back as they were written (`readView_of_holds`,
`readText_of_holds`, `readPrim_of_holds`).

A reference carries its address as a word. Nothing is lost by that, as long as only words are mapped
(`Addressable.holds_mod`): bytes that are held are at a word, unless there are none.
-/

namespace RingCall.Wire

namespace Memory

variable {m : Memory} {a n : Nat} {bytes bytes' : List UInt8}

/-- A memory has the given bytes from an address on. -/
def Holds (m : Memory) (a : Nat) (bytes : List UInt8) : Prop :=
  ∀ i b, bytes[i]? = some b → m (a + i) = some b

@[simp] theorem holds_nil (m : Memory) (a : Nat) : m.Holds a [] := nofun

theorem holds_append_iff :
    m.Holds a (bytes ++ bytes') ↔ m.Holds a bytes ∧ m.Holds (a + bytes.length) bytes' := by
  constructor
  · intro h
    refine ⟨fun i b hi ↦ h i b ?_, ?_⟩
    · rw [List.getElem?_append_left (List.getElem?_eq_some_iff.1 hi).1, hi]
    · intro i b hi
      rw [Nat.add_assoc]
      refine h _ b ?_
      rw [List.getElem?_append_right (Nat.le_add_right _ _), Nat.add_sub_cancel_left, hi]
  · rintro ⟨h, h'⟩ i b hi
    rcases Nat.lt_or_ge i bytes.length with hlt | hge
    · exact h i b (by rwa [List.getElem?_append_left hlt] at hi)
    · rw [List.getElem?_append_right hge] at hi
      have hb := h' _ b hi
      rwa [Nat.add_assoc, Nat.add_sub_cancel' hge] at hb

/-- The bytes that are held are read. -/
theorem read?_of_holds (h : m.Holds a bytes) : m.read? a bytes.length = some bytes := by
  induction bytes generalizing a with
  | nil => rfl
  | cons b bytes ih =>
    have hb : m a = some b := h 0 b rfl
    have hrest : m.Holds (a + 1) bytes := fun i c hi ↦ by
      rw [Nat.add_right_comm]
      exact h (i + 1) c hi
    rw [List.length_cons, read?, hb, ih hrest]
    rfl

theorem holds_iff_read? : m.Holds a bytes ↔ m.read? a bytes.length = some bytes := by
  refine ⟨read?_of_holds, ?_⟩
  intro h
  induction bytes generalizing a with
  | nil => exact holds_nil m a
  | cons b bytes ih =>
    rw [List.length_cons, read?] at h
    obtain ⟨c, hc, hrest⟩ := Option.bind_eq_some_iff.1 h
    obtain ⟨rest, hread, heq⟩ := Option.bind_eq_some_iff.1 hrest
    obtain ⟨rfl, rfl⟩ := List.cons.inj (Option.some.inj heq)
    rintro (- | i) d hi
    · rwa [← Option.some.inj hi]
    · rw [Nat.add_comm i, ← Nat.add_assoc]
      exact ih hread i d hi

instance (m : Memory) (a : Nat) (bytes : List UInt8) : Decidable (m.Holds a bytes) :=
  decidable_of_iff _ holds_iff_read?.symm

theorem read_of_holds (h : m.Holds a bytes) (hn : bytes.length = n) : m.read a n = .ok bytes := by
  rw [read, ← hn, read?_of_holds h]

/-! ### Words, references and text -/

theorem byteRange_eight : byteRange 8 = 2 ^ 64 := rfl

theorem readWord_of_holds (h : m.Holds a (toBytes 8 n)) : m.readWord a = .ok (n % 2 ^ 64) := by
  rw [readWord, read_of_holds h (length_toBytes 8 n), ← byteRange_eight, ← ofBytes_toBytes]
  rfl

/-- A reference is read back, up to the size of a word. -/
theorem readView_of_holds {target count : Nat} (h : m.Holds a (viewBytes target count)) :
    m.readView a = .ok (target % 2 ^ 64, count % 2 ^ 64) := by
  obtain ⟨htarget, hcount⟩ := holds_append_iff.1 h
  rw [length_toBytes] at hcount
  rw [readView, readWord_of_holds htarget, readWord_of_holds hcount]
  rfl

/-- Every mapped address is a word. -/
def Addressable (m : Memory) : Prop := ∀ a, (m a).isSome = true → a < 2 ^ 64

theorem Addressable.lt_of_holds (hm : m.Addressable) (h : m.Holds a bytes) (hne : bytes ≠ []) :
    a < 2 ^ 64 := by
  rcases bytes with - | ⟨b, bytes⟩
  · exact absurd rfl hne
  · have hb : m a = some b := h 0 b rfl
    exact hm a (by rw [hb]; rfl)

/-- Bytes are still found when their address has been written as a word. -/
theorem Addressable.holds_mod (hm : m.Addressable) (h : m.Holds a bytes) :
    m.Holds (a % 2 ^ 64) bytes := by
  rcases bytes with - | ⟨b, bytes⟩
  · exact holds_nil m _
  · rwa [Nat.mod_eq_of_lt (hm.lt_of_holds h (List.cons_ne_nil _ _))]

/-- Text is read back from a reference to its bytes. -/
theorem readText_of_holds (hm : m.Addressable) {target : Nat} {s : String}
    (h : m.Holds a (viewBytes target (Text.utf8 s).length)) (hlen : (Text.utf8 s).length < 2 ^ 64)
    (hs : m.Holds target (Text.utf8 s)) : m.readText a = .ok s := by
  rw [readText, readView_of_holds h, Nat.mod_eq_of_lt hlen]
  have hbytes : m.read (target % 2 ^ 64) (Text.utf8 s).length = .ok (Text.utf8 s) :=
    read_of_holds (hm.holds_mod hs) rfl
  by_cases hzero : (Text.utf8 s).length = 0
  · have hempty : s = "" := by
      rw [← Text.ofUtf8_utf8 s, List.length_eq_zero_iff.1 hzero]
      rfl
    rw [hempty]
    rfl
  · simp only [bind, Except.bind, if_neg hzero, hbytes, Text.ofUtf8_utf8]
    rfl

theorem readPrim_of_holds {p : Prim} {v : p.Value} (h : m.Holds a (p.toBytes v)) :
    m.readPrim p a = .ok v := by
  rw [readPrim, read_of_holds h (p.length_toBytes v)]
  simp only [bind, Except.bind, Prim.toBytes, ofBytes_toBytes_of_lt (p.bits_lt v), p.ofBits?_bits v]
  rfl

end Memory

end RingCall.Wire
