import Mathlib.Data.List.DropRight
import RingCall.Text.Numeral

/-!
# What spells a number

A text spells a number if it is a run of ASCII digits, possibly with a plus sign before them and
blanks around them (`Text.Spells`). This is exactly what is read as a number
(`Text.numeral?_trim_eq_some_iff`): neither a sign nor a digit is blank, so that the blanks around a
numeral end where it begins, and nothing else than digits has a value. A word is read if the number
also fits into one (`Text.word?_eq_some_iff`), however many digits it was spelled with.
-/

namespace RingCall.Text

variable {cs front body back : List Char} {c : Char} {n : Nat}

/-- Some text spells a number: blanks, possibly a plus sign, one or more digits, and blanks. -/
def Spells (cs : List Char) (n : Nat) : Prop :=
  ∃ front sign digits back, cs = front ++ ((sign ++ digits) ++ back) ∧
    (∀ c ∈ front, isBlank c = true) ∧ (∀ c ∈ back, isBlank c = true) ∧
    (sign = [] ∨ sign = ['+']) ∧ digits ≠ [] ∧ (∀ c ∈ digits, c.isDigit = true) ∧
    Nat.ofDigitChars 10 digits 0 = n

/-! ### Digits -/

theorem digit?_of_isDigit (h : c.isDigit = true) : digit? c = some (c.toNat - '0'.toNat) :=
  if_pos (by simpa [Char.isDigit, Char.le_def] using h)

theorem digit?_of_not_isDigit (h : ¬ c.isDigit = true) : digit? c = none :=
  if_neg (by simpa [Char.isDigit, Char.le_def] using h)

/-- A run of characters is read just if all of them are digits, and then as the number that they
stand for, the most significant one first. -/
theorem foldlM_digit?_eq_some_iff (m : Nat) :
    cs.foldlM (fun n c ↦ (digit? c).map (10 * n + ·)) m = some n ↔
      (∀ c ∈ cs, c.isDigit = true) ∧ Nat.ofDigitChars 10 cs m = n := by
  induction cs generalizing m with
  | nil => simp [Nat.ofDigitChars]
  | cons c cs ih =>
    rw [List.foldlM_cons, List.forall_mem_cons, Nat.ofDigitChars_cons, and_assoc, ← ih]
    by_cases hc : c.isDigit = true
    · rw [digit?_of_isDigit hc]
      exact (and_iff_right hc).symm
    · rw [digit?_of_not_isDigit hc]
      exact iff_of_false nofun fun h ↦ hc h.1

/-- A text is a numeral exactly when all of it is digits, and then its value is the decimal one. -/
theorem ofDigits?_eq_some_iff :
    ofDigits? cs = some n ↔ (∀ c ∈ cs, c.isDigit = true) ∧ Nat.ofDigitChars 10 cs 0 = n :=
  foldlM_digit?_eq_some_iff 0

theorem numeral?_of_head?_ne (hne : cs ≠ []) (hsign : cs.head? ≠ some '+') :
    numeral? cs = ofDigits? cs := by
  rw [numeral?]
  · exact hne
  · rintro rfl
    exact hsign rfl
  · rintro cs rfl
    exact hsign rfl

theorem numeral?_plus (hne : cs ≠ []) : numeral? ('+' :: cs) = ofDigits? cs := by
  rw [numeral?]
  rintro rfl
  exact hne rfl

/-- A numeral is one or more digits, possibly with a plus sign before them. -/
theorem numeral?_eq_some_iff :
    numeral? cs = some n ↔ ∃ sign digits, cs = sign ++ digits ∧ (sign = [] ∨ sign = ['+']) ∧
      digits ≠ [] ∧ (∀ c ∈ digits, c.isDigit = true) ∧ Nat.ofDigitChars 10 digits 0 = n := by
  constructor
  · intro h
    rw [numeral?.eq_def] at h
    split at h
    · cases h
    · cases h
    · next cs hne => exact ⟨['+'], cs, rfl, .inr rfl, hne, ofDigits?_eq_some_iff.1 h⟩
    · next hne _ _ => exact ⟨[], cs, rfl, .inl rfl, hne, ofDigits?_eq_some_iff.1 h⟩
  · rintro ⟨sign, digits, rfl, rfl | rfl, hne, hdigits⟩
    · rw [List.nil_append, numeral?_of_head?_ne hne]
      · exact ofDigits?_eq_some_iff.2 hdigits
      · intro hsign
        exact absurd (hdigits.1 _ (List.mem_of_mem_head? hsign)) (by decide)
    · rw [List.singleton_append, numeral?_plus hne]
      exact ofDigits?_eq_some_iff.2 hdigits

/-! ### Blanks -/

/-- No digit is blank, so trimming never eats into a numeral. -/
theorem isBlank_of_isDigit (h : c.isDigit = true) : isBlank c = false := by
  have hdigit : 48 ≤ c.toNat ∧ c.toNat ≤ 57 := Char.isDigit_iff_toNat.1 h
  -- blanks are below the digits, up to the space, or above them
  have hapart : ∀ range ∈ blankRanges, range.2 ≤ 0x20 ∨ 0x85 ≤ range.1 := by decide
  rw [isBlank, List.any_eq_false]
  intro range hrange
  have := hapart range hrange
  simp only [Bool.and_eq_true, decide_eq_true_iff]
  omega

/-- Blanks around a text without blanks do not count. -/
theorem trim_append (hfront : ∀ c ∈ front, isBlank c = true) (hbody : ∀ c ∈ body, isBlank c = false)
    (hback : ∀ c ∈ back, isBlank c = true) : trim (front ++ (body ++ back)) = body := by
  have hleft : (front ++ (body ++ back)).dropWhile isBlank = (body ++ back).dropWhile isBlank :=
    List.dropWhile_append_of_pos hfront
  rw [trim, hleft]
  cases body with
  | nil =>
    rw [List.nil_append, List.dropWhile_eq_nil_iff.2 hback]
    rfl
  | cons c body =>
    have hright : (c :: body ++ back).reverse.dropWhile isBlank =
        (c :: body).reverse.dropWhile isBlank := by
      rw [List.reverse_append]
      exact List.dropWhile_append_of_pos fun c hc ↦ hback c (List.mem_reverse.1 hc)
    have hnone : (c :: body).reverse.dropWhile isBlank = (c :: body).reverse :=
      List.dropWhile_eq_self_iff.2 fun hl ↦ by
        rw [hbody _ (List.mem_reverse.1 (List.getElem_mem hl))]
        decide
    rw [List.cons_append, List.dropWhile_cons_of_neg (by simp [hbody c]), ← List.cons_append,
      hright, hnone, List.reverse_reverse]

/-- What is left of a text lies between blanks. -/
theorem exists_eq_append_trim (cs : List Char) :
    ∃ front back, cs = front ++ (trim cs ++ back) ∧ (∀ c ∈ front, isBlank c = true) ∧
      ∀ c ∈ back, isBlank c = true := by
  refine ⟨cs.takeWhile isBlank, (cs.dropWhile isBlank).rtakeWhile isBlank, ?_,
    fun c ↦ List.mem_takeWhile_imp, fun c ↦ List.mem_rtakeWhile_imp⟩
  calc cs = cs.takeWhile isBlank ++ cs.dropWhile isBlank := List.takeWhile_append_dropWhile.symm
    _ = _ := congrArg _ List.rdropWhile_append_rtakeWhile.symm

/-- **What is read as a number** is what spells one. -/
theorem numeral?_trim_eq_some_iff : numeral? (trim cs) = some n ↔ Spells cs n := by
  rw [numeral?_eq_some_iff]
  constructor
  · rintro ⟨sign, digits, htrim, hnumeral⟩
    obtain ⟨front, back, hcs, hfront, hback⟩ := exists_eq_append_trim cs
    rw [htrim] at hcs
    exact ⟨front, sign, digits, back, hcs, hfront, hback, hnumeral⟩
  · rintro ⟨front, sign, digits, back, rfl, hfront, hback, hsign, hne, hdigits, hn⟩
    refine ⟨sign, digits, trim_append hfront ?_ hback, hsign, hne, hdigits, hn⟩
    intro c hc
    rcases List.mem_append.1 hc with hc | hc
    · rcases hsign with rfl | rfl
      · cases hc
      · rw [List.mem_singleton.1 hc]
        rfl
    · exact isBlank_of_isDigit (hdigits c hc)

/-- A word is read from a text that spells a number which fits into a word. -/
theorem word?_eq_some_iff {s : String} {w : UInt64} :
    word? s = some w ↔ Spells s.toList w.toNat := by
  simp only [word?, Option.bind_eq_bind, Option.bind_eq_some_iff, numeral?_trim_eq_some_iff]
  constructor
  · rintro ⟨n, hn, hw⟩
    split at hw
    · next hlt =>
      obtain rfl := Option.some.inj hw
      rwa [UInt64.toNat_ofNat_of_lt' hlt]
    · cases hw
  · intro h
    exact ⟨w.toNat, h, by rw [if_pos w.toNat_lt, UInt64.ofNat_toNat]⟩

end RingCall.Text
