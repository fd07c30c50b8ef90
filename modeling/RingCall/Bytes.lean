/-!
# Little-endian bytes

Every number that is written to memory goes through one encoder: a natural number becomes exactly
`w` bytes, the least significant one first. Reading takes the bytes back to a number.

* `toBytes w n` has `w` bytes (`length_toBytes`), and
* `ofBytes (toBytes w n) = n % byteRange w` (`ofBytes_toBytes`), so that a number that fits into `w`
  bytes is read back as it was (`ofBytes_toBytes_of_lt`).
-/

namespace RingCall

/-- The `w` little-endian bytes of `n`. What does not fit into `w` bytes is dropped. -/
def toBytes : Nat → Nat → List UInt8
  | 0, _ => []
  | w + 1, n => UInt8.ofNat (n % 256) :: toBytes w (n / 256)

/-- The number with the given little-endian bytes. -/
def ofBytes : List UInt8 → Nat
  | [] => 0
  | b :: bs => b.toNat + 256 * ofBytes bs

/-- How many numbers fit into `w` bytes: 256 to the power of `w`. -/
def byteRange : Nat → Nat
  | 0 => 1
  | w + 1 => 256 * byteRange w

@[simp]
theorem length_toBytes (w n : Nat) : (toBytes w n).length = w := by
  induction w generalizing n with
  | zero => rfl
  | succ w ih => simp [toBytes, ih]

theorem ofBytes_toBytes (w n : Nat) : ofBytes (toBytes w n) = n % byteRange w := by
  induction w generalizing n with
  | zero => simp [toBytes, ofBytes, byteRange, Nat.mod_one]
  | succ w ih =>
    have hbyte : (UInt8.ofNat (n % 256)).toNat = n % 256 :=
      UInt8.toNat_ofNat_of_lt' (Nat.mod_lt n (by decide))
    rw [toBytes, ofBytes, ih, hbyte, byteRange, Nat.mod_mul]

theorem ofBytes_toBytes_of_lt {w n : Nat} (h : n < byteRange w) : ofBytes (toBytes w n) = n := by
  rw [ofBytes_toBytes, Nat.mod_eq_of_lt h]

end RingCall
