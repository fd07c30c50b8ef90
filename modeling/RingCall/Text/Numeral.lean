import RingCall.Text.Blank

/-!
# Decimal numerals

How a setting spells a number: blanks around it do not count, one plus sign may stand in front, and
then come one or more ASCII digits. A number that does not fit into a machine word is no number,
while leading zeros make no difference.
-/

namespace RingCall.Text

/-- The value of an ASCII digit. -/
def digit? (c : Char) : Option Nat :=
  if '0' ≤ c ∧ c ≤ '9' then some (c.toNat - '0'.toNat) else none

/-- The number that a run of digits stands for. -/
def ofDigits? (cs : List Char) : Option Nat :=
  cs.foldlM (fun n c ↦ (digit? c).map (10 * n + ·)) 0

/-- The number that a numeral stands for: digits, and possibly a plus sign before them. -/
def numeral? : List Char → Option Nat
  | [] | ['+'] => none
  | '+' :: cs => ofDigits? cs
  | cs => ofDigits? cs

/-- The machine word that a setting spells. -/
def word? (s : String) : Option UInt64 := do
  let n ← numeral? (trim s.toList)
  if n < UInt64.size then some (UInt64.ofNat n) else none

end RingCall.Text
