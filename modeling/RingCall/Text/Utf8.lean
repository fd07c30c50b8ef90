/-!
# UTF-8 with replacement

Text is stored as UTF-8. Bytes that come back from memory need not be well formed, so decoding never
fails: a sequence that stops being valid is replaced by one U+FFFD, and decoding goes on at the byte
that broke it. Hence one replacement stands for each longest prefix of a sequence that could still
have become a character.

The decoder reads one byte at a time. Between two bytes it remembers the character it is in the
middle of (`Partial`): how many bytes are still missing, the bounds of the next one, and the bits
collected so far. The bounds after a lead byte are narrower than `80..BF` where a full range would
admit overlong forms (`E0`, `F0`), surrogates (`ED`) or numbers beyond U+10FFFF (`F4`).
-/

namespace RingCall.Text

/-- The UTF-8 bytes of a text. -/
def utf8 (s : String) : List UInt8 :=
  s.toList.flatMap String.utf8EncodeChar

/-- The character that stands for undecodable bytes. -/
def replacement : Char := '\uFFFD'

/-- A character whose first bytes have been read. -/
structure Partial where
  /-- How many continuation bytes are still missing, at least one. -/
  missing : Nat
  /-- The least value of the next byte. -/
  lo : UInt8
  /-- The greatest value of the next byte. -/
  hi : UInt8
  /-- The bits read so far. -/
  bits : Nat
  deriving DecidableEq

/-- What a lead byte starts: a character of its own, a longer sequence, or nothing valid. -/
inductive Lead where
  | single (c : Char)
  | sequence (p : Partial)
  | invalid

/-- Classifies a byte where a character may start. -/
def Lead.ofByte (b : UInt8) : Lead :=
  if b < 0x80 then .single (Char.ofNat b.toNat)
  else if b < 0xC2 then .invalid
  else if b < 0xE0 then .sequence ⟨1, 0x80, 0xBF, b.toNat - 0xC0⟩
  else if b < 0xF0 then
    let lo := if b = 0xE0 then 0xA0 else 0x80
    let hi := if b = 0xED then 0x9F else 0xBF
    .sequence ⟨2, lo, hi, b.toNat - 0xE0⟩
  else if b < 0xF5 then
    let lo := if b = 0xF0 then 0x90 else 0x80
    let hi := if b = 0xF4 then 0x8F else 0xBF
    .sequence ⟨3, lo, hi, b.toNat - 0xF0⟩
  else .invalid

/-- Decodes bytes outside a character (`none`) or in the middle of one. A byte that does not
continue the character ends it with a replacement and is then read as a lead byte itself. -/
def decodeFrom : Option Partial → List UInt8 → List Char
  | none, [] => []
  | some _, [] => [replacement]
  | some p, b :: bs =>
    if p.lo ≤ b ∧ b ≤ p.hi then
      let bits := p.bits * 64 + (b.toNat - 0x80)
      if p.missing ≤ 1 then Char.ofNat bits :: decodeFrom none bs
      else decodeFrom (some ⟨p.missing - 1, 0x80, 0xBF, bits⟩) bs
    else
      match Lead.ofByte b with
      | .single c => replacement :: c :: decodeFrom none bs
      | .sequence q => replacement :: decodeFrom (some q) bs
      | .invalid => replacement :: replacement :: decodeFrom none bs
  | none, b :: bs =>
    match Lead.ofByte b with
    | .single c => c :: decodeFrom none bs
    | .sequence q => decodeFrom (some q) bs
    | .invalid => replacement :: decodeFrom none bs

/-- The text that the bytes hold, with U+FFFD for what is not UTF-8. -/
def ofUtf8 (bytes : List UInt8) : String :=
  String.ofList (decodeFrom none bytes)

end RingCall.Text
