/-!
# Hexadecimal numerals

Numbers in base sixteen with lower-case digits, as short as possible or with leading zeros up to a
width, and bytes with two digits each.
-/

namespace RingCall.Text

/-- The number in base sixteen, with at least `width` digits. -/
def hex (width n : Nat) : String :=
  let digits := Nat.toDigits 16 n
  String.ofList (List.replicate (width - digits.length) '0' ++ digits)

/-- The value of a hexadecimal digit. -/
def hexDigit? (c : Char) : Option Nat :=
  if '0' ≤ c ∧ c ≤ '9' then some (c.toNat - '0'.toNat)
  else if 'a' ≤ c ∧ c ≤ 'f' then some (c.toNat - 'a'.toNat + 10)
  else if 'A' ≤ c ∧ c ≤ 'F' then some (c.toNat - 'A'.toNat + 10)
  else none

/-- The number that hexadecimal digits stand for. -/
def ofHex? (cs : List Char) : Option Nat :=
  cs.foldlM (fun n c ↦ (hexDigit? c).map (16 * n + ·)) 0

/-- Bytes with two digits each. -/
def hexBytes (bs : List UInt8) : String := String.join (bs.map fun b ↦ hex 2 b.toNat)

/-- The bytes that pairs of digits stand for. -/
def ofHexBytes? : List Char → Option (List UInt8)
  | [] => some []
  | [_] => none
  | a :: b :: rest => do
    let byte ← ofHex? [a, b]
    let bytes ← ofHexBytes? rest
    return UInt8.ofNat byte :: bytes

end RingCall.Text
