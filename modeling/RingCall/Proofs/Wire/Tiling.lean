import Mathlib.Algebra.Order.BigOperators.Group.Finset
import Mathlib.Order.Interval.Finset.Nat
import RingCall.Proofs.Wire.Buffer

/-!
# Every byte of the buffer is written once

A value is measured and then written. The two agree to the byte (`Ty.tiles_write`): the writes are
the references of the value's parts, one for each part in turn (`Ty.forall₂_parts`), what was
measured is the size of these references (`Ty.flatSize_eq`), and each byte that was measured lies in
exactly one of them.

The last fact is a matter of counting. No two writes share a byte and none leaves the buffer
(`Ty.takes_write`), so as many bytes are covered as the writes are long. If that is the length of
the buffer then no byte is left out (`Confined.countP_covers`).
-/

namespace RingCall.Wire

/-! ### Counting covered bytes -/

/-- Whether an address lies in what was put down. -/
def Put.covers (p : Put) (a : Nat) : Bool := p.address ≤ a && a < p.stop

theorem Put.covers_iff {p : Put} {a : Nat} : p.covers a = true ↔ p.address ≤ a ∧ a < p.stop := by
  simp [covers]

namespace Confined

variable {puts : List Put} {a b x : Nat}

/-- No address lies in two writes. -/
theorem countP_covers_le (h : Confined puts a b) (x : Nat) : puts.countP (·.covers x) ≤ 1 := by
  have hapart := h.apart
  clear h
  induction hapart with
  | nil => simp
  | @cons p puts hp _ ih =>
    rw [List.countP_cons]
    by_cases hx : p.covers x = true
    · have hrest : puts.countP (·.covers x) = 0 := by
        rw [List.countP_eq_zero]
        intro q hq hqx
        rw [Put.covers_iff] at hx hqx
        rcases hp q hq with hpq | hqp <;> omega
      simp [hx, hrest]
    · simpa [hx] using ih

/-- An address outside lies in no write. -/
theorem countP_covers_of_outside (h : Confined puts a b) (hx : ¬ (a ≤ x ∧ x < b)) :
    puts.countP (·.covers x) = 0 := by
  rw [List.countP_eq_zero]
  intro p hp hpx
  obtain ⟨hstart, hstop⟩ := h.within p hp
  rw [Put.covers_iff] at hpx
  omega

/-- As many addresses are covered as bytes were put down. -/
theorem sum_countP_covers (h : ∀ p ∈ puts, a ≤ p.address ∧ p.stop ≤ b) :
    ∑ x ∈ Finset.Ico a b, puts.countP (·.covers x) = (puts.map (·.bytes.length)).sum := by
  induction puts with
  | nil => simp
  | cons p puts ih =>
    obtain ⟨hstart, hstop⟩ := h p List.mem_cons_self
    have hcovered : (Finset.Ico a b).filter (fun x ↦ p.covers x = true) =
        Finset.Ico p.address p.stop := by
      ext x
      simp only [Finset.mem_filter, Finset.mem_Ico, Put.covers_iff]
      omega
    have hone : ∑ x ∈ Finset.Ico a b, (if p.covers x = true then 1 else 0) = p.bytes.length := by
      rw [← Finset.sum_filter, hcovered, ← Finset.card_eq_sum_ones, Nat.card_Ico, Put.stop,
        Nat.add_sub_cancel_left]
    simp only [List.countP_cons, Finset.sum_add_distrib, hone,
      ih fun q hq ↦ h q (List.mem_cons_of_mem _ hq), List.map_cons, List.sum_cons]
    exact Nat.add_comm _ _

/-- Writes that are as long as the block they stay in, and that share no byte, leave none out. -/
theorem countP_covers (h : Confined puts a b) (hsum : a + (puts.map (·.bytes.length)).sum = b)
    (x : Nat) : puts.countP (·.covers x) = if a ≤ x ∧ x < b then 1 else 0 := by
  split
  · next hx =>
    refine Nat.le_antisymm (h.countP_covers_le x) (Nat.pos_of_ne_zero fun hzero ↦ ?_)
    -- one address that is left out is one byte too many for the others
    have hlt : ∑ y ∈ Finset.Ico a b, puts.countP (·.covers y) < ∑ y ∈ Finset.Ico a b, 1 :=
      Finset.sum_lt_sum (fun y _ ↦ h.countP_covers_le y)
        ⟨x, Finset.mem_Ico.2 hx, by rw [hzero]; exact Nat.one_pos⟩
    rw [sum_countP_covers h.within, ← Finset.card_eq_sum_ones, Nat.card_Ico] at hlt
    omega
  · next hx => exact h.countP_covers_of_outside hx

end Confined

/-! ### The parts of a value -/

/-- The parts of a value whose references are written into the buffer, each behind its own parts. -/
def Ty.parts : (t : Ty) → t.Value → List ((s : Ty) × s.Value)
  | prim _, _ | string, _ => []
  | list t, (xs : List t.Value) =>
    if (list t).kind = .complex then xs.flatMap fun x ↦ t.parts x ++ [⟨t, x⟩] else []
  | greeting, (g : Greeting) => g.tags.map fun s ↦ ⟨string, s⟩

/-- What was put down is the reference of a value. -/
def Put.IsRefOf (p : Put) (part : (t : Ty) × t.Value) : Prop :=
  ∃ home pen, p.bytes = (part.1.write part.2 home pen).ref

theorem Put.IsRefOf.length_eq {p : Put} {part : (t : Ty) × t.Value} (h : p.IsRefOf part) :
    p.bytes.length = part.1.refSize := by
  obtain ⟨home, pen, hp⟩ := h
  rw [hp]
  exact part.1.length_ref part.2 home pen

section Lists

variable {α β : Type} {write : α → Home → Pen → Written} {R : Put → β → Prop} {inner : α → List β}
  {outer : α → β}

/-- Each element is written before its slot. -/
theorem forall₂_writeEach (hinner : ∀ x home pen, List.Forall₂ R (write x home pen).puts (inner x))
    (houter : ∀ x home pen a, R ⟨a, (write x home pen).ref⟩ (outer x)) (home : Home) (i : Nat)
    (xs : List α) (slots pen : Pen) :
    List.Forall₂ R (writeEach write home i xs slots pen).2
      (xs.flatMap fun x ↦ inner x ++ [outer x]) := by
  induction xs generalizing i slots pen with
  | nil => exact .nil
  | cons x xs ih =>
    rw [List.flatMap_cons, List.append_assoc]
    exact List.rel_append (hinner x _ pen) (.cons (houter x _ pen _) (ih _ _ _))

theorem forall₂_writeOut {size : Nat}
    (hinner : ∀ x home pen, List.Forall₂ R (write x home pen).puts (inner x))
    (houter : ∀ x home pen a, R ⟨a, (write x home pen).ref⟩ (outer x)) (xs : List α) (home : Home)
    (pen : Pen) :
    List.Forall₂ R (writeOut size write xs home pen).puts
      (xs.flatMap fun x ↦ inner x ++ [outer x]) :=
  forall₂_writeEach hinner houter home 0 xs pen ⟨pen.pos + xs.length * size⟩

end Lists

namespace Ty

theorem parts_list {t : Ty} (ht : t.kind ≠ .primitive) (xs : List t.Value) :
    (list t).parts xs = xs.flatMap fun x ↦ t.parts x ++ [⟨t, x⟩] :=
  if_pos (kind_list_eq_complex_iff.2 ht)

theorem parts_greeting (g : Greeting) :
    greeting.parts g = g.tags.flatMap fun s ↦ [] ++ [⟨string, s⟩] :=
  List.map_eq_flatMap

/-- **One write for each part.** What is put down while a value is written are the references of its
parts, in turn. -/
theorem forall₂_parts (t : Ty) (v : t.Value) (home : Home) (pen : Pen) :
    List.Forall₂ Put.IsRefOf (t.write v home pen).puts (t.parts v) := by
  induction t generalizing home pen with
  | prim p => exact .nil
  | string => exact .nil
  | list t ih =>
    by_cases ht : t.kind = .primitive
    · obtain ⟨p, rfl⟩ := kind_eq_primitive_iff.1 ht
      exact .nil
    · rw [write_list ht, show (list t).parts v = _ from parts_list ht v]
      exact forall₂_writeOut (fun x ↦ ih x) (fun x home pen _ ↦ ⟨home, pen, rfl⟩) v home pen
  | greeting =>
    rw [show greeting.parts v = _ from parts_greeting v]
    have htags : ∀ (ss : List String) home pen,
        List.Forall₂ Put.IsRefOf (writeOut viewSize writeText ss home pen).puts
          (ss.flatMap fun s ↦ [] ++ [⟨string, s⟩]) :=
      forall₂_writeOut (fun _ _ _ ↦ .nil) fun _ home pen _ ↦ ⟨home, pen, rfl⟩
    exact htags _ _ _

/-- What a value takes in the buffer is the references of its parts. -/
theorem flatSize_eq (t : Ty) (v : t.Value) :
    t.flatSize v = ((t.parts v).map fun part ↦ part.1.refSize).sum := by
  induction t with
  | prim p => rfl
  | string => rfl
  | list t ih =>
    by_cases ht : t.kind = .primitive
    · obtain ⟨p, rfl⟩ := kind_eq_primitive_iff.1 ht
      rfl
    · have hsum : ∀ xs : List t.Value, xs.length * t.refSize + (xs.map t.flatSize).sum =
          ((xs.flatMap fun x ↦ t.parts x ++ [⟨t, x⟩]).map fun part ↦ part.1.refSize).sum := by
        intro xs
        induction xs with
        | nil => simp
        | cons x xs ihxs =>
          rw [List.flatMap_cons, List.map_append, List.sum_append, ← ihxs, List.map_append,
            List.sum_append, ← ih x, List.length_cons, Nat.succ_mul, List.map_cons, List.sum_cons,
            List.map_singleton, List.sum_singleton]
          show _ = _ + t.refSize + _
          omega
      -- each element has its own reference besides those of its parts
      rw [show (list t).parts v = _ from parts_list ht v]
      exact (flatSize_list ht v).trans (hsum v)
  | greeting =>
    have hmap : (greeting.parts v).map (fun part ↦ part.1.refSize) =
        (Greeting.tags v).map fun _ ↦ viewSize :=
      List.map_map
    rw [hmap]
    rw [List.map_const', List.sum_replicate_nat]
    rfl

/-- **Measuring and writing agree to the byte.** A value has so many bytes of references to its
parts. Measuring adds them to a word, and for a list element also those of its own reference. The
sum wraps around or, if sums are checked, is refused, just if it is no word. Writing leaves the pen
behind the bytes, puts down one reference for each part, and covers each of the bytes exactly once
and no other byte. So the flat encoding has room for them and for the value's reference behind them,
and their size is what is measured from 0, if it is a word. -/
theorem tiles_write (t : Ty) (v : t.Value) :
    let size := ((t.parts v).map fun part ↦ part.1.refSize).sum
    (∀ checked (acc : UInt64),
      t.measure checked v false acc =
        (if checked ∧ 2 ^ 64 ≤ acc.toNat + size then none else some (acc + .ofNat size)) ∧
      t.measure checked v true acc =
        (if checked ∧ 2 ^ 64 ≤ acc.toNat + (size + t.refSize) then none
        else some (acc + .ofNat (size + t.refSize)))) ∧
    (∀ home pen,
      (t.write v home pen).pen.pos = pen.pos + size ∧
      List.Forall₂ Put.IsRefOf (t.write v home pen).puts (t.parts v) ∧
      ∀ a, (t.write v home pen).puts.countP (·.covers a) =
        if pen.pos ≤ a ∧ a < pen.pos + size then 1 else 0) ∧
    ∀ home base,
      (t.flatten v home base).refOffset = size ∧
      (t.flatten v home base).bytes.size = size + t.refSize ∧
      (t.write v home ⟨base⟩).pen.pos = base + (t.flatten v home base).refOffset ∧
      (size < 2 ^ 64 → ∀ checked,
        (t.measure checked v false 0).map (·.toNat) = some (t.flatten v home base).refOffset) := by
  intro size
  have hsize : t.flatSize v = size := t.flatSize_eq v
  have hmeasure (checked : Bool) (acc : UInt64) :
      t.measure checked v false acc = addSize checked acc size := by
    rw [measure_eq, hsize, if_neg Bool.false_ne_true, Nat.zero_add]
  refine ⟨?_, ?_, ?_⟩
  · intro checked acc
    refine ⟨hmeasure checked acc, ?_⟩
    rw [measure_eq, hsize, if_pos rfl, Nat.add_comm]
    rfl
  · intro home pen
    have hparts := t.forall₂_parts v home pen
    -- writes that share no byte and add up to the size leave none out
    have hconfined := t.takes_write.confined v home pen
    rw [hsize] at hconfined
    have hlength : ((t.write v home pen).puts.map (·.bytes.length)).sum = size := by
      have hmap : List.Forall₂ (· = ·) ((t.write v home pen).puts.map (·.bytes.length))
          ((t.parts v).map fun part ↦ part.1.refSize) :=
        List.rel_map (fun _ _ h ↦ h.length_eq) hparts
      rw [List.forall₂_eq_eq_eq] at hmap
      rw [hmap]
    refine ⟨?_, hparts, hconfined.countP_covers (by rw [hlength])⟩
    rw [t.takes_write.pos v home pen, hsize]
  · intro home base
    refine ⟨hsize, ?_, t.takes_write.pos v home ⟨base⟩, fun hlt checked ↦ ?_⟩
    · show (fill base (Array.replicate (t.flatSize v) 0) (t.write v home ⟨base⟩).puts ++
        (t.write v home ⟨base⟩).ref.toArray).size = _
      rw [Array.size_append, size_fill, Array.size_replicate, List.size_toArray,
        t.length_ref, hsize]
    · have hfits : ¬ (checked = true ∧ UInt64.size ≤ (0 : UInt64).toNat + size) := by
        rw [UInt64.toNat_zero]
        exact fun h ↦ absurd h.2 (by simpa using hlt)
      rw [hmeasure, addSize, if_neg hfits, UInt64.zero_add, Option.map_some,
        UInt64.toNat_ofNat_of_lt' hlt]
      exact congrArg some hsize.symm

/-- Two lists of text in a list take the references of the three texts and of the two lists. -/
theorem tiles_write_threeTexts :
    let t := list (list string)
    let v : t.Value := ([["a", "bc"], ["def"]] : List (List String))
    ((t.parts v).map fun part ↦ part.1.refSize).sum = 80 ∧ 80 < 2 ^ 64 ∧
    t.measure true v false 7 = some 87 ∧ t.measure true v true 18446744073709551600 = none ∧
    t.measure false v true 18446744073709551600 = some 80 ∧
    ∀ home base, (t.measure true v false 0).map (·.toNat) = some
      (t.flatten v home base).refOffset := by
  intro t v
  have hsize : ((t.parts v).map fun part ↦ part.1.refSize).sum = 80 := by decide
  obtain ⟨hmeasure, -, hflat⟩ := tiles_write t v
  rw [hsize] at hmeasure hflat
  have hlt : 80 < 2 ^ 64 := by decide
  exact ⟨hsize, hlt, (hmeasure true 7).1, (hmeasure true _).2,
    (hmeasure false 18446744073709551600).2.trans (by decide), fun home base ↦
    (hflat home base).2.2.2 hlt true⟩

/-- The references of the three texts come behind those of the lists. -/
example : ((list (list string)).write ([["a", "bc"], ["def"]] : List (List String))
    (fun _ ↦ 7) ⟨5⟩).puts.map (fun p ↦ (p.address, p.bytes.length)) =
      [(37, 16), (53, 16), (5, 16), (69, 16), (21, 16)] := by
  decide +kernel

end Ty

end RingCall.Wire
