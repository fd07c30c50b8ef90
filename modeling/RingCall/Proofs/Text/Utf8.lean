import RingCall.Text.Utf8

/-!
# UTF-8 reads back what was written

Decoding the bytes of a text gives the text (`ofUtf8_utf8`). A character takes one to four bytes.
Its lead byte tells how many follow, and the bounds that the decoder then has for the next byte are
met, since the encoding is the shortest one and a character is no surrogate and not beyond U+10FFFF
(`decodeFrom_utf8EncodeChar`).
-/

namespace RingCall.Text

/-- What a lead byte starts, by its number. -/
theorem Lead.ofByte_eq (b : UInt8) : Lead.ofByte b =
    if b.toNat < 0x80 then .single (Char.ofNat b.toNat)
    else if b.toNat < 0xC2 then .invalid
    else if b.toNat < 0xE0 then .sequence ⟨1, 0x80, 0xBF, b.toNat - 0xC0⟩
    else if b.toNat < 0xF0 then
      .sequence ⟨2, if b.toNat = 0xE0 then 0xA0 else 0x80, if b.toNat = 0xED then 0x9F else 0xBF,
        b.toNat - 0xE0⟩
    else if b.toNat < 0xF5 then
      .sequence ⟨3, if b.toNat = 0xF0 then 0x90 else 0x80, if b.toNat = 0xF4 then 0x8F else 0xBF,
        b.toNat - 0xF0⟩
    else .invalid := by
  simp [Lead.ofByte, UInt8.lt_iff_toNat_lt, ← UInt8.toNat_inj]

/-! ### Continuation bytes -/

/-- A byte within the bounds goes on with a character. -/
theorem decodeFrom_continue {p : Partial} {n : Nat} (hlo : p.lo.toNat ≤ 0x80 + n)
    (hhi : 0x80 + n ≤ p.hi.toNat) (hmissing : 1 < p.missing) (bs : List UInt8) :
    decodeFrom (some p) (UInt8.ofNat (n + 0x80) :: bs) =
      decodeFrom (some ⟨p.missing - 1, 0x80, 0xBF, p.bits * 64 + n⟩) bs := by
  have hn := p.hi.toNat_lt
  have hb : (UInt8.ofNat (n + 0x80)).toNat = n + 0x80 :=
    UInt8.toNat_ofNat_of_lt' (show _ < 2 ^ 8 by omega)
  rw [decodeFrom, if_pos ⟨UInt8.le_iff_toNat_le.2 (by omega), UInt8.le_iff_toNat_le.2 (by omega)⟩]
  simp only [hb, Nat.add_sub_cancel]
  rw [if_neg (by omega)]

/-- The last byte within the bounds completes a character. -/
theorem decodeFrom_complete {p : Partial} {n : Nat} (hlo : p.lo.toNat ≤ 0x80 + n)
    (hhi : 0x80 + n ≤ p.hi.toNat) (hmissing : p.missing = 1) (bs : List UInt8) :
    decodeFrom (some p) (UInt8.ofNat (n + 0x80) :: bs) =
      Char.ofNat (p.bits * 64 + n) :: decodeFrom none bs := by
  have hn := p.hi.toNat_lt
  have hb : (UInt8.ofNat (n + 0x80)).toNat = n + 0x80 :=
    UInt8.toNat_ofNat_of_lt' (show _ < 2 ^ 8 by omega)
  rw [decodeFrom, if_pos ⟨UInt8.le_iff_toNat_le.2 (by omega), UInt8.le_iff_toNat_le.2 (by omega)⟩]
  simp only [hb, Nat.add_sub_cancel]
  rw [if_pos (by omega)]

/-! ### Characters -/

section Scalar

variable {v : Nat} (bs : List UInt8)

theorem decodeFrom_one (h : v ≤ 0x7f) :
    decodeFrom none (UInt8.ofNat v :: bs) = Char.ofNat v :: decodeFrom none bs := by
  have hlead : Lead.ofByte (UInt8.ofNat v) = .single (Char.ofNat v) := by
    rw [Lead.ofByte_eq, UInt8.toNat_ofNat_of_lt' (show _ < 2 ^ 8 by omega), if_pos (by omega)]
  rw [decodeFrom, hlead]

theorem decodeFrom_two (hlo : 0x7f < v) (hhi : v ≤ 0x7ff) :
    decodeFrom none (UInt8.ofNat (v / 64 % 0x20 + 0xc0) :: UInt8.ofNat (v % 0x40 + 0x80) :: bs) =
      Char.ofNat v :: decodeFrom none bs := by
  have hlead : Lead.ofByte (UInt8.ofNat (v / 64 % 0x20 + 0xc0)) =
      .sequence ⟨1, 0x80, 0xBF, v / 64⟩ := by
    rw [Lead.ofByte_eq, UInt8.toNat_ofNat_of_lt' (show _ < 2 ^ 8 by omega), if_neg (by omega),
      if_neg (by omega), if_pos (by omega), Nat.add_sub_cancel, Nat.mod_eq_of_lt (by omega)]
  have hv : v / 64 * 64 + v % 0x40 = v := Nat.div_add_mod' v 64
  rw [decodeFrom, hlead]
  simp only
  rw [decodeFrom_complete (by simp) (by simp; omega) rfl, hv]

/-- The bounds of the second byte rule out shorter forms and surrogates. -/
theorem decodeFrom_three (hlo : 0x7ff < v) (hhi : v ≤ 0xffff) (hvalid : v < 0xD800 ∨ 0xDFFF < v) :
    decodeFrom none (UInt8.ofNat (v / 4096 % 0x10 + 0xe0) :: UInt8.ofNat (v / 64 % 0x40 + 0x80) ::
      UInt8.ofNat (v % 0x40 + 0x80) :: bs) = Char.ofNat v :: decodeFrom none bs := by
  have hlead : Lead.ofByte (UInt8.ofNat (v / 4096 % 0x10 + 0xe0)) =
      .sequence ⟨2, if v / 4096 % 0x10 = 0 then 0xA0 else 0x80,
        if v / 4096 % 0x10 = 0xD then 0x9F else 0xBF, v / 4096⟩ := by
    rw [Lead.ofByte_eq, UInt8.toNat_ofNat_of_lt' (show _ < 2 ^ 8 by omega), if_neg (by omega),
      if_neg (by omega), if_neg (by omega), if_pos (by omega), Nat.add_sub_cancel,
      Nat.mod_eq_of_lt (by omega)]
    simp
  have hv : (v / 4096 * 64 + v / 64 % 0x40) * 64 + v % 0x40 = v := by omega
  rw [decodeFrom, hlead]
  simp only
  rw [decodeFrom_continue ?_ ?_ (by simp), decodeFrom_complete (by simp) (by simp; omega) rfl, hv]
  · show (if _ then (0xA0 : UInt8) else 0x80).toNat ≤ _
    split <;> simp
    omega
  · show _ ≤ (if _ then (0x9F : UInt8) else 0xBF).toNat
    split <;> (simp; omega)

/-- The bounds of the second byte rule out shorter forms and numbers that are too great. -/
theorem decodeFrom_four (hlo : 0xffff < v) (hhi : v < 0x110000) :
    decodeFrom none (UInt8.ofNat (v / 262144 % 0x08 + 0xf0) ::
      UInt8.ofNat (v / 4096 % 0x40 + 0x80) :: UInt8.ofNat (v / 64 % 0x40 + 0x80) ::
      UInt8.ofNat (v % 0x40 + 0x80) :: bs) = Char.ofNat v :: decodeFrom none bs := by
  have hlead : Lead.ofByte (UInt8.ofNat (v / 262144 % 0x08 + 0xf0)) =
      .sequence ⟨3, if v / 262144 % 0x08 = 0 then 0x90 else 0x80,
        if v / 262144 % 0x08 = 4 then 0x8F else 0xBF, v / 262144⟩ := by
    rw [Lead.ofByte_eq, UInt8.toNat_ofNat_of_lt' (show _ < 2 ^ 8 by omega), if_neg (by omega),
      if_neg (by omega), if_neg (by omega), if_neg (by omega), if_pos (by omega),
      Nat.add_sub_cancel, Nat.mod_eq_of_lt (by omega)]
    simp
  have hv : ((v / 262144 * 64 + v / 4096 % 0x40) * 64 + v / 64 % 0x40) * 64 + v % 0x40 = v := by
    omega
  rw [decodeFrom, hlead]
  simp only
  rw [decodeFrom_continue ?_ ?_ (by simp), decodeFrom_continue (by simp) (by simp; omega) (by simp),
    decodeFrom_complete (by simp) (by simp; omega) rfl, hv]
  · show (if _ then (0x90 : UInt8) else 0x80).toNat ≤ _
    split <;> simp
    omega
  · show _ ≤ (if _ then (0x8F : UInt8) else 0xBF).toNat
    split <;> (simp; omega)

end Scalar

/-- The bytes of a character are read back. -/
theorem decodeFrom_utf8EncodeChar (c : Char) (bs : List UInt8) :
    decodeFrom none (String.utf8EncodeChar c ++ bs) = c :: decodeFrom none bs := by
  have hvalid : c.val.toNat < 0xD800 ∨ 0xDFFF < c.val.toNat ∧ c.val.toNat < 0x110000 := c.valid
  have hc : Char.ofNat c.val.toNat = c := Char.ofNat_toNat c
  unfold String.utf8EncodeChar
  generalize c.val.toNat = v at hvalid hc
  rw [← hc]
  simp only
  split
  · exact decodeFrom_one bs ‹_›
  · split
    · exact decodeFrom_two bs (by omega) ‹_›
    · split
      · exact decodeFrom_three bs (by omega) ‹_› (by omega)
      · exact decodeFrom_four bs (by omega) (by omega)

theorem decodeFrom_flatMap (cs : List Char) :
    decodeFrom none (cs.flatMap String.utf8EncodeChar) = cs := by
  induction cs with
  | nil => rfl
  | cons c cs ih => rw [List.flatMap_cons, decodeFrom_utf8EncodeChar, ih]

/-- **Text is read back as it was.** -/
theorem ofUtf8_utf8 (s : String) : ofUtf8 (utf8 s) = s := by
  rw [ofUtf8, utf8, decodeFrom_flatMap, String.ofList_toList]

end RingCall.Text
