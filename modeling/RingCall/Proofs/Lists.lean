/-!
# Lists and results

General facts about lists, and about results that may be errors.
-/

namespace List

variable {α β : Type}

/-- The first hit from behind is one of the last element, if there is one. -/
theorem findSome?_reverse_concat (f : α → Option β) (l : List α) (x : α) :
    (l ++ [x]).reverse.findSome? f = (f x).or (l.reverse.findSome? f) := by
  rw [reverse_append, reverse_singleton, singleton_append, findSome?_cons]
  cases f x <;> rfl

/-- A running maximum is at least what it starts from, and at least each value it is taken of. -/
theorem le_foldl_max (f : α → Nat) (xs : List α) (a : Nat) :
    a ≤ xs.foldl (fun a x ↦ max a (f x)) a ∧ ∀ x ∈ xs,
      f x ≤ xs.foldl (fun a x ↦ max a (f x)) a := by
  induction xs generalizing a with
  | nil => exact ⟨Nat.le_refl _, nofun⟩
  | cons x xs ih =>
    obtain ⟨hstart, hmem⟩ := ih (max a (f x))
    refine ⟨Nat.le_trans (Nat.le_max_left _ _) hstart, ?_⟩
    intro y hy
    rcases mem_cons.1 hy with rfl | hy
    · exact Nat.le_trans (Nat.le_max_right _ _) hstart
    · exact hmem y hy

/-- A running maximum is at most what nothing exceeds that it is taken of. -/
theorem foldl_max_le (f : α → Nat) {xs : List α} {a b : Nat} (ha : a ≤ b)
    (hxs : ∀ x ∈ xs, f x ≤ b) :
    xs.foldl (fun a x ↦ max a (f x)) a ≤ b := by
  induction xs generalizing a with
  | nil => exact ha
  | cons x xs ih =>
    exact ih (Nat.max_le.2 ⟨ha, hxs x mem_cons_self⟩) fun y hy ↦ hxs y (mem_cons_of_mem x hy)

end List

namespace Except

/-- What answers after something else did so after that had answered. -/
theorem bind_eq_ok {ε α β : Type} {x : Except ε α} {f : α → Except ε β} {b : β}
    (h : x >>= f = .ok b) : ∃ a, x = .ok a ∧ f a = .ok b := by
  cases x with
  | error => cases h
  | ok a => exact ⟨a, rfl, h⟩

end Except
