import Mathlib.Logic.Nontrivial.Defs
import RingCall.Proofs.Ring.Contents

/-!
# Counters that wrap around

A ring is meant to be a bounded queue, whatever its counters start from. `QueueUse.run` makes the
same use of a ring and of a list of bounded length, so that the two can be compared.

The number of records held never depends on where the counters are: which items are handed back, and
which pops find something, is as for the bounded list (`Tallies.use`). Which records are popped is
another matter. The slot of a record is its counter modulo the capacity, and where the counters wrap
around, the slots stay in turn only if the capacity divides the size of a word. If it does, or if no
counter wraps around, the ring answers as the list does (`Mirrors.use`). If it does not, there is a
place for the counters to start from at which a record that is stored after they wrapped around
overwrites one that is held (`not_mirrored`). So the ring is a bounded queue for all starts exactly
if its capacity divides the size of a word (`run_use`).
-/

namespace RingCall

variable {α : Type}

/-- What is done with a queue. -/
inductive QueueUse (α : Type) where
  | push (item : α)
  | pop
  deriving DecidableEq, Repr

namespace QueueUse

variable {σ : Type} {act : σ → QueueUse α → Option α × σ}

def isPush : QueueUse α → Bool
  | push _ => true
  | pop => false

/-- Uses a queue time and again. Each use answers an item or nothing. -/
def run (act : σ → QueueUse α → Option α × σ) : σ → List (QueueUse α) → List (Option α) × σ
  | s, [] => ([], s)
  | s, a :: as => ((act s a).1 :: (run act (act s a).2 as).1, (run act (act s a).2 as).2)

/-- Uses can be made one list after the other. -/
theorem run_append (s : σ) (as bs : List (QueueUse α)) :
    run act s (as ++ bs) = ((run act s as).1 ++ (run act (run act s as).2 bs).1,
      (run act (run act s as).2 bs).2) := by
  induction as generalizing s with
  | nil => rfl
  | cons a as ih => simp only [List.cons_append, run, ih]

end QueueUse

/-- A use of a queue of at most `bound` items. A push answers the item if it is handed back. -/
def boundedUse (bound : Nat) (held : List α) : QueueUse α → Option α × List α
  | .push item => if held.length = bound then (some item, held) else (none, held ++ [item])
  | .pop => (held.head?, held.tail)

namespace Ring

/-- A use of a ring. A push answers the item if it is handed back. -/
def use (r : Ring α) : QueueUse α → Option α × Ring α
  | .push item =>
    match r.push? item with
    | some r => (none, r)
    | none => (some item, r)
  | .pop =>
    match r.pop? with
    | some (item, r) => (some item, r)
    | none => (none, r)

variable {r : Ring α} {held : List α}

/-! ### How many records are held -/

/-- The ring holds as many records as the list. -/
structure Tallies (r : Ring α) (held : List α) : Prop where
  len_le : r.len ≤ r.capacity
  length_eq : held.length = r.len.toNat

/-- An empty ring tallies with no records. -/
theorem Tallies.of_isEmpty (h : r.isEmpty = true) : r.Tallies [] where
  len_le := by
    rw [isEmpty_iff.1 h, UInt64.le_iff_toNat_le]
    exact Nat.zero_le _
  length_eq := by
    rw [isEmpty_iff.1 h]
    rfl

/-- A ring that tallies with records is empty if there are none. -/
theorem Tallies.isEmpty_iff (h : r.Tallies held) : r.isEmpty = true ↔ held = [] := by
  rw [Ring.isEmpty_iff, ← List.length_eq_zero_iff, h.length_eq]
  exact ⟨fun h0 ↦ h0 ▸ rfl, fun h0 ↦ UInt64.toNat_inj.1 h0⟩

/-- It is full if there are as many as its capacity. -/
theorem Tallies.isFull_iff (h : r.Tallies held) :
    r.isFull = true ↔ held.length = r.capacity.toNat := by
  rw [Ring.isFull_iff, h.length_eq, UInt64.toNat_inj]

/-- A use leaves the capacity alone. -/
theorem capacity_use (r : Ring α) (a : QueueUse α) : (r.use a).2.capacity = r.capacity := by
  cases a with
  | push item =>
    rw [use]
    split
    · next hpush => exact capacity_of_push? hpush
    · rfl
  | pop =>
    rw [use]
    split
    · next hpop => exact capacity_of_pop? hpop
    · rfl

/-- Any uses leave the capacity alone. -/
theorem capacity_run_use (r : Ring α) (as : List (QueueUse α)) :
    (QueueUse.run Ring.use r as).2.capacity = r.capacity := by
  induction as generalizing r with
  | nil => rfl
  | cons a as ih => exact (ih _).trans (capacity_use r a)

/-- The two go on holding as many records, and one answers an item exactly if the other does. -/
theorem Tallies.use (h : r.Tallies held) (a : QueueUse α) :
    (r.use a).2.Tallies (boundedUse r.capacity.toNat held a).2 ∧
      (r.use a).1.isSome = (boundedUse r.capacity.toNat held a).1.isSome := by
  cases a with
  | push item =>
    rw [Ring.use, boundedUse]
    rcases hpush : r.push? item with - | r'
    · rw [if_pos (h.isFull_iff.1 (Ring.isFull_iff.2 (push?_eq_none_iff.1 hpush)))]
      exact ⟨h, rfl⟩
    · have hfull : held.length ≠ r.capacity.toNat := fun hfull ↦
        (push?_eq_some hpush).1 (Ring.isFull_iff.1 (h.isFull_iff.2 hfull))
      rw [if_neg hfull]
      refine ⟨⟨len_le_of_push? h.len_le hpush, ?_⟩, rfl⟩
      rw [List.length_append, List.length_singleton, h.length_eq, toNat_len_of_push? h.len_le hpush]
  | pop =>
    rw [Ring.use, boundedUse]
    rcases hpop : r.pop? with - | ⟨item, r'⟩
    · obtain rfl := h.isEmpty_iff.1 (pop?_eq_none_iff.1 hpop)
      exact ⟨h, rfl⟩
    · have hlen := toNat_len_of_pop? hpop
      have hlength := h.length_eq
      cases held with
      | nil => simp at hlength; omega
      | cons first rest =>
        refine ⟨⟨len_le_of_pop? h.len_le hpop, ?_⟩, rfl⟩
        simp only [List.length_cons, List.tail_cons] at hlength ⊢
        omega

/-- **A ring fails where a bounded queue fails**, whatever its counters do. -/
theorem Tallies.run (h : r.Tallies held) (as : List (QueueUse α)) :
    (QueueUse.run Ring.use r as).2.Tallies (QueueUse.run (boundedUse r.capacity.toNat) held as).2 ∧
      (QueueUse.run Ring.use r as).1.map Option.isSome =
        (QueueUse.run (boundedUse r.capacity.toNat) held as).1.map Option.isSome := by
  induction as generalizing r held with
  | nil => exact ⟨h, rfl⟩
  | cons a as ih =>
    obtain ⟨hnext, hanswer⟩ := h.use a
    obtain ⟨hrest, hanswers⟩ := ih hnext
    rw [capacity_use] at hrest hanswers
    exact ⟨hrest, by simp only [QueueUse.run, List.map_cons, hanswer, hanswers]⟩

/-! ### Which records are held -/

/-- If the capacity divides the size of a word, no record held is in the slot that comes next,
wherever the counters are. -/
theorem slot_ne_slot_tail_of_dvd (hdvd : r.capacity.toNat ∣ 2 ^ 64)
    (hlt : r.len < r.capacity) {i : Nat} (hi : i < r.len.toNat) :
    r.slot (r.control.head + UInt64.ofNat i) ≠ r.slot r.control.tail := by
  have hcap : r.len.toNat < r.capacity.toNat := UInt64.lt_iff_toNat_lt.1 hlt
  -- wrapping around does not change the slot
  have hslot : ∀ n : Nat, r.slot (r.control.head + UInt64.ofNat n) =
      (r.control.head.toNat + n) % r.capacity.toNat := by
    intro n
    rw [slot, UInt64.toNat_add, UInt64.toNat_ofNat', Nat.add_mod_mod, Nat.mod_mod_of_dvd _ hdvd]
  have htail : r.control.tail = r.control.head + UInt64.ofNat r.len.toNat := by
    rw [UInt64.ofNat_toNat, ← tail_eq]
  rw [htail, hslot, hslot]
  exact mod_ne_mod (by omega) (by omega)

/-- The slots stay in turn while so many more records are stored in an empty ring: they do so
wherever the counters are, or the last of the records is stored before a counter wraps around. -/
def Lasts (n : Nat) (r : Ring α) : Prop :=
  r.capacity.toNat ∣ 2 ^ 64 ∨ r.control.tail.toNat + n ≤ 2 ^ 64

/-- A ring whose counters last for some pushes lasts for fewer. -/
theorem Lasts.mono {m n : Nat} (h : r.Lasts n) (hle : m ≤ n) : r.Lasts m :=
  h.imp_right (by omega)

/-- A single record is never out of turn. -/
theorem lasts_one (r : Ring α) : r.Lasts 1 := .inr r.control.tail.toNat_lt

/-- A record that is stored comes last, if it does not wrap around to the slot of another one. -/
theorem contents_of_push?_of_fits (hle : r.len ≤ r.capacity)
    (hfits : r.isEmpty = true ∨ r.capacity.toNat ∣ 2 ^ 64 ∨
      r.control.head.toNat + r.len.toNat < 2 ^ 64)
    (hpush : r.push? a = some r') : r'.contents = r.contents ++ [a] := by
  have hlt : r.len < r.capacity := UInt64.lt_of_le_of_ne hle (push?_eq_some hpush).1
  refine contents_of_push? hle hpush fun i hi ↦ ?_
  rcases hfits with hempty | hdvd | hwrap
  · rw [isEmpty_iff.1 hempty] at hi
    exact absurd hi (Nat.not_lt_zero i)
  · exact slot_ne_slot_tail_of_dvd hdvd hlt hi
  · exact slot_ne_slot_tail hwrap hlt hi

/-- The ring holds the records of the list, and this can be relied on for so many pushes: the slots
of the records stay in turn, or that many counters are left. -/
structure Mirrors (pushes : Nat) (r : Ring α) (held : List α) : Prop where
  len_le : r.len ≤ r.capacity
  contents_eq : r.contents = held
  left : r.capacity.toNat ∣ 2 ^ 64 ∨ r.control.head.toNat + r.len.toNat + pushes ≤ 2 ^ 64

/-- A ring that has the records of a queue tallies with them. -/
theorem Mirrors.tallies {n : Nat} (h : Mirrors n r held) : r.Tallies held :=
  ⟨h.len_le, by rw [← h.contents_eq, length_contents]⟩

/-- An empty ring mirrors an empty queue. -/
theorem Mirrors.of_isEmpty {n : Nat} (h : r.isEmpty = true)
    (hleft : r.capacity.toNat ∣ 2 ^ 64 ∨ r.control.tail.toNat + n ≤ 2 ^ 64) : Mirrors n r [] where
  len_le := (Tallies.of_isEmpty h).len_le
  contents_eq := contents_eq_nil_iff.2 h
  left := by
    have hlen := Ring.isEmpty_iff.1 h
    have htail : r.control.tail = r.control.head := by rw [tail_eq, hlen, UInt64.add_zero]
    rw [hlen, ← htail]
    simpa using hleft

/-- Each use is answered as by a bounded queue, and leaves the records of one. -/
theorem Mirrors.use {n : Nat} {a : QueueUse α} (h : Mirrors (n + a.isPush.toNat) r held) :
    Mirrors n (r.use a).2 (boundedUse r.capacity.toNat held a).2 ∧
      (r.use a).1 = (boundedUse r.capacity.toNat held a).1 := by
  cases a with
  | push item =>
    rw [QueueUse.isPush, Bool.toNat_true] at h
    rw [Ring.use, boundedUse]
    rcases hpush : r.push? item with - | r'
    · have hfull := h.tallies.isFull_iff.1 (Ring.isFull_iff.2 (push?_eq_none_iff.1 hpush))
      have hleft : r.capacity.toNat ∣ 2 ^ 64 ∨ r.control.head.toNat + r.len.toNat + n ≤ 2 ^ 64 :=
        h.left.imp_right (by omega)
      rw [if_pos hfull]
      exact ⟨⟨h.len_le, h.contents_eq, hleft⟩, rfl⟩
    · have hne := (push?_eq_some hpush).1
      -- one push fewer is left, which is the one that fits here
      have hcontents : r'.contents = r.contents ++ [item] :=
        contents_of_push?_of_fits h.len_le (.inr (h.left.imp_right (by omega))) hpush
      have hlen := toNat_len_of_push? h.len_le hpush
      have hfull : held.length ≠ r.capacity.toNat := fun hfull ↦
        hne (Ring.isFull_iff.1 (h.tallies.isFull_iff.2 hfull))
      rw [if_neg hfull]
      refine ⟨⟨len_le_of_push? h.len_le hpush, by rw [hcontents, h.contents_eq], ?_⟩, rfl⟩
      rw [capacity_of_push? hpush, head_of_push? hpush, hlen]
      exact h.left.imp_right (by omega)
  | pop =>
    rw [QueueUse.isPush, Bool.toNat_false] at h
    rw [Ring.use, boundedUse]
    rcases hpop : r.pop? with - | ⟨item, r'⟩
    · obtain rfl := h.tallies.isEmpty_iff.1 (pop?_eq_none_iff.1 hpop)
      exact ⟨h, rfl⟩
    · have hcontents := contents_of_pop? hpop
      rw [h.contents_eq] at hcontents
      subst hcontents
      have hlen := toNat_len_of_pop? hpop
      have hhead : r'.control.head.toNat ≤ r.control.head.toNat + 1 := by
        rw [head_of_pop? hpop, UInt64.toNat_add, UInt64.toNat_one]
        exact Nat.mod_le _ _
      have hleft : r'.capacity.toNat ∣ 2 ^ 64 ∨
          r'.control.head.toNat + r'.len.toNat + n ≤ 2 ^ 64 := by
        rw [capacity_of_pop? hpop]
        exact h.left.imp_right (by omega)
      exact ⟨⟨len_le_of_pop? h.len_le hpop, rfl, hleft⟩, rfl⟩

/-- So are any uses, one after the other. -/
theorem Mirrors.run {as : List (QueueUse α)} (h : Mirrors (as.countP QueueUse.isPush) r held) :
    (QueueUse.run Ring.use r as).2.contents =
        (QueueUse.run (boundedUse r.capacity.toNat) held as).2 ∧
      (QueueUse.run Ring.use r as).1 = (QueueUse.run (boundedUse r.capacity.toNat) held as).1 := by
  induction as generalizing r held with
  | nil => exact ⟨h.contents_eq, rfl⟩
  | cons a as ih =>
    have hcount : (a :: as).countP QueueUse.isPush = as.countP QueueUse.isPush +
        a.isPush.toNat := by
      rw [List.countP_cons]
      cases a.isPush <;> rfl
    rw [hcount] at h
    obtain ⟨hnext, hanswer⟩ := h.use
    obtain ⟨hrest, hanswers⟩ := ih hnext
    rw [capacity_use] at hrest hanswers
    exact ⟨hrest, by simp only [QueueUse.run, hanswer, hanswers]⟩

/-! ### Slots that are out of turn -/

/-- A bounded queue takes records while there is room. -/
theorem run_boundedUse_replicate {bound n : Nat} (a : α) (h : held.length + n ≤ bound) :
    QueueUse.run (boundedUse bound) held (List.replicate n (.push a)) =
      (List.replicate n none, held ++ List.replicate n a) := by
  induction n generalizing held with
  | zero => simp [QueueUse.run]
  | succ n ih =>
    have hroom : held.length ≠ bound := by omega
    have hrest := @ih (held ++ [a]) (by simpa using by omega)
    simp only [List.replicate_succ, QueueUse.run, boundedUse, if_neg hroom, hrest,
      List.append_assoc, List.singleton_append]

/-- A ring with the same record in each slot, `n` of which it holds. -/
def uniform (capacity start : UInt64) (h : capacity ≠ 0) (a : α) (n : Nat) : Ring α where
  capacity := capacity
  control := { head := start, tail := start + UInt64.ofNat n }
  slots _ := a
  capacity_ne_zero := h

section Uniform

variable {capacity start : UInt64} {hpos : capacity ≠ 0} {a : α} {n m : Nat}

/-- A ring that was filled with one record has as many as were pushed. -/
theorem len_uniform (hn : n ≤ capacity.toNat) :
    (uniform capacity start hpos a n).len.toNat = n := by
  have hcap := capacity.toNat_lt
  have hlen : (uniform capacity start hpos a n).len = UInt64.ofNat n := by
    simp only [len, Control.len, uniform]
    grind
  rw [hlen, UInt64.toNat_ofNat', Nat.mod_eq_of_lt (by omega)]

/-- A ring that was filled with fewer records than its capacity is not full. -/
theorem isFull_uniform (hn : n < capacity.toNat) :
    (uniform capacity start hpos a n).isFull = false := by
  rw [Bool.eq_false_iff, ne_eq, isFull_iff, ← UInt64.toNat_inj, len_uniform hn.le]
  exact hn.ne

/-- Pushing one record again and again fills a ring with it. -/
theorem run_use_uniform (h : n + m ≤ capacity.toNat) :
    QueueUse.run Ring.use (uniform capacity start hpos a n) (List.replicate m (.push a)) =
      (List.replicate m none, uniform capacity start hpos a (n + m)) := by
  induction m generalizing n with
  | zero => rfl
  | succ m ih =>
    have hpush : (uniform capacity start hpos a n).push? a =
        some (uniform capacity start hpos a (n + 1)) := by
      rw [push?, if_neg (by rw [isFull_uniform (by omega)]; exact Bool.false_ne_true)]
      simp only [uniform, UInt64.ofNat_add, UInt64.ofNat_one, UInt64.add_assoc, Option.some.injEq,
        Ring.mk.injEq, true_and]
      funext i
      exact ite_self a
    have hrest := ih (n := n + 1) (by omega)
    simp only [List.replicate_succ, QueueUse.run, Ring.use, hpush, hrest]
    rw [Nat.add_right_comm, Nat.add_assoc]

/-- A record that is stored in the slot of the first one is taken in its stead. -/
theorem run_use_uniform_overwritten (hn : n < capacity.toNat) (b : α)
    (hslot : (uniform capacity start hpos a n).slot (start + UInt64.ofNat n) =
      (uniform capacity start hpos a n).slot start) :
    (QueueUse.run Ring.use (uniform capacity start hpos a n) [.push b, .pop]).1 =
    [none, some b] := by
  have hlen : (uniform capacity start hpos a n).len.toNat = n := len_uniform hn.le
  rcases hpush : (uniform capacity start hpos a n).push? b with - | r
  · have hfull := isFull_iff.2 (push?_eq_none_iff.1 hpush)
    rw [isFull_uniform hn] at hfull
    cases hfull
  · have hle : (uniform capacity start hpos a n).len ≤ capacity := by
      rw [UInt64.le_iff_toNat_le, hlen]
      exact hn.le
    have hone := toNat_len_of_push? hle hpush
    rcases hpop : r.pop? with - | ⟨item, r'⟩
    · rw [isEmpty_iff.1 (pop?_eq_none_iff.1 hpop)] at hone
      simp at hone
    · have hitem := (pop?_eq_some hpop).2.1
      rw [(push?_eq_some hpush).2] at hitem
      have hb : item = b := hitem.trans (if_pos hslot.symm)
      simp only [QueueUse.run, Ring.use, hpush, hpop, hb]

end Uniform

/-- If the capacity does not divide the size of a word, the counters can start so that the first of
them after they wrapped around has the slot of the first of all. -/
theorem not_mirrored {capacity : UInt64} (hpos : capacity ≠ 0) (hdvd : ¬ capacity.toNat ∣ 2 ^ 64)
    {a b : α} (hab : a ≠ b) : ∃ (r : Ring α) (as : List (QueueUse α)), r.capacity = capacity ∧
      r.isEmpty = true ∧
      (QueueUse.run Ring.use r as).1 ≠ (QueueUse.run (boundedUse capacity.toNat) [] as).1 := by
  have hcap : 0 < capacity.toNat := Nat.pos_of_ne_zero fun h0 ↦ hpos (UInt64.toNat_inj.1 h0)
  let n := 2 ^ 64 % capacity.toNat
  have hn : 0 < n := Nat.pos_of_ne_zero fun h0 ↦ hdvd (Nat.dvd_of_mod_eq_zero h0)
  have hlt : n < capacity.toNat := Nat.mod_lt _ hcap
  have hword := capacity.toNat_lt
  let start : UInt64 := UInt64.ofNat (2 ^ 64 - n)
  have hstart : start.toNat = 2 ^ 64 - n := by
    rw [UInt64.toNat_ofNat', Nat.mod_eq_of_lt (by omega)]
  -- both counters are multiples of the capacity, the second after it wrapped around
  have hfirst : start.toNat % capacity.toNat = 0 := by
    rw [hstart]
    exact Nat.sub_mod_eq_zero_of_mod_eq (Nat.mod_eq_of_lt hlt).symm
  have hsecond : start + UInt64.ofNat n = 0 := by
    have hsum : 2 ^ 64 - n + n = 2 ^ 64 := by omega
    rw [← UInt64.toNat_inj, UInt64.toNat_add, hstart, UInt64.toNat_ofNat', Nat.add_mod_mod, hsum]
    rfl
  refine ⟨uniform capacity start hpos a 0, List.replicate n (.push a) ++ [.push b, .pop],
    rfl, ?_, ?_⟩
  · rw [Ring.isEmpty_iff, ← UInt64.toNat_inj, len_uniform (Nat.zero_le _)]
    rfl
  · have hslot : (uniform capacity start hpos a n).slot (start + UInt64.ofNat n) =
        (uniform capacity start hpos a n).slot start := by
      rw [hsecond]
      exact (Nat.zero_mod _).trans hfirst.symm
    -- the ring answers the last record, and the list the first one
    have hring := run_use_uniform_overwritten hlt b hslot
    have hlist : (QueueUse.run (boundedUse capacity.toNat) (List.replicate n a) [.push b, .pop]).1 =
        [none, some a] := by
      obtain ⟨k, hk⟩ := Nat.exists_eq_succ_of_ne_zero hn.ne'
      have hroom : (List.replicate n a).length ≠ capacity.toNat := by simpa using hlt.ne
      rw [QueueUse.run, boundedUse, if_neg hroom, hk, List.replicate_succ]
      rfl
    rw [QueueUse.run_append, QueueUse.run_append, run_use_uniform (by omega),
      run_boundedUse_replicate a (by simpa using hlt.le)]
    simp only [Nat.zero_add, List.nil_append, hring, hlist]
    intro heq
    have hlast := List.append_cancel_left heq
    simp only [List.cons.injEq, Option.some.injEq, and_true, true_and] at hlast
    exact hab hlast.symm

/-- **Counters that wrap around.** Whatever the counters of an empty ring start from, it hands back,
finds and counts as many records as a bounded queue does. It also takes the same records if the
capacity divides the size of a word or no counter wraps around; and if it takes the same records
whatever the counters start from, then the capacity divides the size of a word. -/
theorem run_use [Nontrivial α] {capacity : UInt64} (hpos : capacity ≠ 0) :
    (∀ r : Ring α, r.capacity = capacity → r.isEmpty = true → ∀ as : List (QueueUse α),
      let got := QueueUse.run Ring.use r as
      let want := QueueUse.run (boundedUse capacity.toNat) [] as
      got.1.map Option.isSome = want.1.map Option.isSome ∧
      got.2.len.toNat = want.2.length ∧
      (got.2.isEmpty = true ↔ want.2 = []) ∧
      (got.2.isFull = true ↔ want.2.length = capacity.toNat) ∧
      (capacity.toNat ∣ 2 ^ 64 ∨ r.control.tail.toNat + as.countP QueueUse.isPush ≤ 2 ^ 64 →
        got.1 = want.1 ∧ got.2.contents = want.2)) ∧
    ((∀ r : Ring α, r.capacity = capacity → r.isEmpty = true → ∀ as : List (QueueUse α),
        (QueueUse.run Ring.use r as).1 = (QueueUse.run (boundedUse capacity.toNat) [] as).1) ↔
      capacity.toNat ∣ 2 ^ 64) := by
  refine ⟨?_, ?_, ?_⟩
  · rintro r rfl hempty as
    obtain ⟨htallies, hanswers⟩ := (Tallies.of_isEmpty hempty).run as
    have hcap : (QueueUse.run Ring.use r as).2.capacity = r.capacity := capacity_run_use r as
    refine ⟨hanswers, htallies.length_eq.symm, htallies.isEmpty_iff, ?_, ?_⟩
    · rw [htallies.isFull_iff, hcap]
    · intro hleft
      exact (Mirrors.of_isEmpty hempty hleft).run.symm
  · intro hall
    -- otherwise two records meet in one slot, as soon as the counters wrap around
    by_contra hdvd
    obtain ⟨a, b, hab⟩ := exists_pair_ne α
    obtain ⟨r, as, hr, hempty, hne⟩ := not_mirrored hpos hdvd hab
    exact hne (hall r hr hempty as)
  · rintro hdvd r rfl hempty as
    exact (Mirrors.of_isEmpty hempty (.inl hdvd)).run.2

/-- Three slots are not enough for the slots to stay in turn, and four are. -/
theorem run_use_threeOrFour :
    ((3 : UInt64) ≠ 0 ∧ ¬ ∀ r : Ring Nat, r.capacity = 3 → r.isEmpty = true →
      ∀ as : List (QueueUse Nat),
        (QueueUse.run Ring.use r as).1 = (QueueUse.run (boundedUse 3) [] as).1) ∧
    ((4 : UInt64) ≠ 0 ∧ ∀ r : Ring Nat, r.capacity = 4 → r.isEmpty = true →
      ∀ as : List (QueueUse Nat),
        (QueueUse.run Ring.use r as).1 = (QueueUse.run (boundedUse 4) [] as).1) := by
  have three : (3 : UInt64) ≠ 0 := by decide
  have four : (4 : UInt64) ≠ 0 := by decide
  exact ⟨⟨three, (run_use three).2.not.2 (by decide)⟩, four, (run_use four).2.2 (by decide)⟩

/-- The second of two records is taken twice. -/
theorem run_use_takenTwice :
    (QueueUse.run Ring.use
        (⟨3, { head := 18446744073709551615, tail := 18446744073709551615 }, fun _ ↦ 0, by decide⟩ :
        Ring Nat) [.push 1, .push 2, .pop, .pop]).1 = [none, none, some 2, some 2] ∧
      (QueueUse.run (boundedUse 3) ([] : List Nat) [.push 1, .push 2, .pop, .pop]).1 =
        [none, none, some 1, some 2] := by
  decide

end Ring

end RingCall
