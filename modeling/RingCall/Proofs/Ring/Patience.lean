import Mathlib.Logic.Function.Iterate
import RingCall.Ring.Idle

/-!
# How long an idle period lasts

A waiter that has just been reset takes a number of steps that do not give up, and from then on
every step gives up until the next reset (`Waiter.wait_iff_budget_le`). The number is a function of
the policy and of what the reset was told, `IdlePolicy.budget`: whatever was done with the waiter
before does not matter.

All that is needed of the three kinds of waiters is said by three facts about `Waiter.patience`: a
step gives up exactly if the patience is 0 (`wait_fst_iff`), a step costs 1 of it (`patience_next`),
and a reset grants what the policy says (`patience_reset`). That the past does not matter is
`policy_useAll`: nothing that is done with a waiter changes its policy.

A waiter that sleeps for intervals of 0 has no patience that could run out. It never gives up.
-/

namespace RingCall

/-- What a consumer does with its waiter. -/
inductive Pause where
  /-- It starts an idle period. -/
  | reset (recentWork : Nat) (waited : Bool)
  /-- It takes a step of idling. -/
  | wait
  deriving DecidableEq, Repr

/-- The steps of an idle period that do not give up. Right after 32 records in one go, and unless
the consumer had been blocked before, a spinning one is granted twice the rounds, or as many as a
word can count. -/
def IdlePolicy.budget (recentWork : Nat) (waited : Bool) : IdlePolicy → Nat
  | yield => 0
  | sleep interval ceiling => ceiling / interval
  | spin rounds =>
    let granted :=
      if 32 ≤ recentWork ∧ waited = false then min (2 * rounds.toNat) (UInt32.size - 1)
        else rounds.toNat
    max granted 1 - 1

namespace Waiter

variable {w : Waiter}

/-- The waiter after one more step. -/
def next (w : Waiter) : Waiter := w.wait.2

/-- The policy that a waiter was made for. -/
def policy : Waiter → IdlePolicy
  | yielding => .yield
  | sleeping interval ceiling _ => .sleep interval ceiling
  | spinning rounds _ _ => .spin rounds

/-- The waiter after it was used. -/
def use (w : Waiter) : Pause → Waiter
  | .reset recentWork waited => w.reset recentWork waited
  | .wait => w.next

/-- The waiter after it was used again and again. -/
def useAll (w : Waiter) (ps : List Pause) : Waiter := ps.foldl use w

/-! ### The policy of a waiter -/

@[simp] theorem policy_waiter (p : IdlePolicy) : p.waiter.policy = p := by cases p <;> rfl

@[simp] theorem policy_next (w : Waiter) : w.next.policy = w.policy := by cases w <;> rfl

@[simp] theorem policy_reset (w : Waiter) (recentWork : Nat) (waited : Bool) :
    (w.reset recentWork waited).policy = w.policy := by
  cases w <;> rfl

@[simp] theorem policy_useAll (w : Waiter) (ps : List Pause) : (w.useAll ps).policy = w.policy := by
  induction ps generalizing w with
  | nil => rfl
  | cons p ps ih =>
    have hp : (w.use p).policy = w.policy := by cases p <;> simp [use]
    exact (ih (w.use p)).trans hp

/-! ### Patience -/

/-- A wait answers true when no patience is left. -/
theorem wait_fst_iff (w : Waiter) : w.wait.1 = true ↔ w.patience = some 0 := by
  cases w with
  | yielding => simp [wait, patience]
  | sleeping interval ceiling slept =>
    simp only [wait, patience, decide_eq_true_eq]
    split
    · next hlt => simp [hlt]
    · next hle =>
      split
      · simp [hle]
      · next hpos =>
        -- at least one interval still fits in
        have hfits : 0 < (ceiling - slept) / interval := Nat.div_pos (by omega) (by omega)
        simp only [hle, Option.some.injEq, false_iff]
        omega
  | spinning rounds budget taken =>
    simp only [wait, patience, decide_eq_true_eq, Option.some.injEq]
    omega

/-- Each pause takes one from the patience. -/
theorem patience_next (w : Waiter) : w.next.patience = w.patience.map (· - 1) := by
  cases w with
  | yielding => rfl
  | sleeping interval ceiling slept =>
    simp only [next, wait, patience]
    by_cases hlt : ceiling < slept + interval
    · rw [if_pos hlt, if_pos (by omega)]
      rfl
    · by_cases hzero : interval = 0
      · subst hzero
        simp
      · -- what is left to sleep gets shorter by one interval
        have hrest : ceiling - (slept + interval) = ceiling - slept - interval := by omega
        have hone := Nat.sub_mul_div (ceiling - slept) interval 1
        rw [Nat.mul_one] at hone
        rw [if_neg hlt, if_neg hzero, if_neg hzero, hrest, hone]
        split
        · next hover =>
          have hlast : (ceiling - slept) / interval < 2 :=
            (Nat.div_lt_iff_lt_mul (Nat.pos_of_ne_zero hzero)).2 (by omega)
          simp only [Option.map_some, Option.some.injEq]
          omega
        · rfl
  | spinning rounds budget taken =>
    simp only [next, wait, patience, Option.map_some, Option.some.injEq]
    omega

/-- Any number of pauses take as many from the patience. -/
theorem patience_iterate_next (w : Waiter) (n : Nat) :
    (next^[n] w).patience = w.patience.map (· - n) := by
  induction n with
  | zero => simp
  | succ n ih =>
    rw [Function.iterate_succ_apply', patience_next, ih, Option.map_map]
    rfl

/-- A step gives up once as many have been taken as the patience allows. -/
theorem wait_iterate_next_iff (w : Waiter) (n : Nat) :
    (next^[n] w).wait.1 = true ↔ ∃ k, w.patience = some k ∧ k ≤ n := by
  rw [wait_fst_iff, patience_iterate_next, Option.map_eq_some_iff]
  simp only [Nat.sub_eq_zero_iff_le]

/-- The waiter before the step that gives up has taken the steps that do not. -/
theorem exhausted?_eq (w : Waiter) : w.exhausted? = w.patience.map fun n ↦ next^[n] w := by
  have hsteps (n : Nat) : next^[n] w = match w with
      | yielding => yielding
      | sleeping interval ceiling slept => sleeping interval ceiling (slept + n * interval)
      | spinning rounds budget taken => spinning rounds budget (taken + n) := by
    induction n with
    | zero => cases w <;> simp
    | succ n ih =>
      rw [Function.iterate_succ_apply', ih]
      cases w with
      | yielding => rfl
      | sleeping => simp only [next, wait, Nat.succ_mul, Nat.add_assoc]
      | spinning => rfl
  rw [exhausted?, funext hsteps]
  cases w <;> rfl

/-- A waiter can be drained of as many pauses as it has patience for. -/
theorem fst_drain (w : Waiter) (limit : Nat) :
    (w.drain limit).1 = w.patience.elim limit (min limit) := by
  induction limit generalizing w with
  | zero => cases w.patience <;> simp [drain]
  | succ limit ih =>
    have hpatience := w.patience_next
    rw [drain]
    rcases hwait : w.wait with ⟨- | -, w'⟩
    · have hnot : w.patience ≠ some 0 := fun hzero ↦ by
        have hgives := w.wait_fst_iff.2 hzero
        rw [hwait] at hgives
        cases hgives
      have hw' : w.next = w' := by rw [next, hwait]
      simp only
      rw [ih, ← hw', hpatience]
      cases hk : w.patience with
      | none => rfl
      | some k =>
        have hk0 : k ≠ 0 := fun hzero ↦ hnot (hzero ▸ hk)
        simp only [Option.map_some, Option.elim_some]
        omega
    · have hzero := w.wait_fst_iff.1 (by rw [hwait])
      simp [hzero]

/-! ### Budgets -/

/-- After a reset there is as much patience as the policy grants. -/
theorem patience_reset (hpos : ∀ ceiling, w.policy ≠ .sleep 0 ceiling) (recentWork : Nat)
    (waited : Bool) :
    (w.reset recentWork waited).patience = some (w.policy.budget recentWork waited) := by
  cases w with
  | yielding => rfl
  | sleeping interval ceiling slept =>
    have hzero : interval ≠ 0 := by
      rintro rfl
      exact hpos ceiling rfl
    simp only [reset, patience, policy, IdlePolicy.budget, Nat.zero_add, Nat.sub_zero,
      hzero, if_false]
    split
    · next hlt => rw [Nat.div_eq_of_lt hlt]
    · rfl
  | spinning rounds budget taken =>
    simp only [reset, patience, policy, IdlePolicy.budget, busyThreshold, doubled]
    cases waited <;> by_cases hbusy : 32 ≤ recentWork <;> simp [hbusy, UInt32.size] <;> omega

/-- **Idle budgets are exact, and the past does not matter.** Whatever was done with a waiter, after
a reset the steps do not give up as long as the policy grants them, and all later ones do. -/
theorem wait_iff_budget_le {p : IdlePolicy} (hpos : ∀ ceiling, p ≠ .sleep 0 ceiling)
    (ps : List Pause) (recentWork : Nat) (waited : Bool) :
    let w := (p.waiter.useAll ps).reset recentWork waited
    (∀ n, (next^[n] w).wait.1 = true ↔ p.budget recentWork waited ≤ n) ∧
      ∀ limit, (w.drain limit).1 = min limit (p.budget recentWork waited) := by
  intro w
  have hpolicy : (p.waiter.useAll ps).policy = p := (policy_useAll _ ps).trans (policy_waiter p)
  have hpatience : w.patience = some (p.budget recentWork waited) := by
    have hreset := patience_reset (hpolicy ▸ hpos) recentWork waited
    rwa [hpolicy] at hreset
  refine ⟨fun n ↦ ?_, fun limit ↦ ?_⟩
  · rw [wait_iterate_next_iff, hpatience]
    simp
  · rw [fst_drain, hpatience]
    rfl

/-- Three naps fit into what may be slept, although two naps were taken in the period before. -/
theorem wait_iff_budget_le_threeNaps :
    (∀ ceiling, IdlePolicy.sleep 1 3 ≠ .sleep 0 ceiling) ∧
    (((IdlePolicy.sleep 1 3).waiter.useAll [.wait, .wait]).reset 10 true).wait.1 = false ∧
    (((IdlePolicy.sleep 1 3).waiter.useAll [.wait, .wait]).reset 10 true |>.drain 9).1 = 3 := by
  have hpos : ∀ ceiling, IdlePolicy.sleep 1 3 ≠ .sleep 0 ceiling := nofun
  obtain ⟨hwait, hdrain⟩ := wait_iff_budget_le hpos [.wait, .wait] 10 true
  exact ⟨hpos, Bool.eq_false_iff.2 fun hgives ↦ absurd ((hwait 0).1 hgives) (by decide), hdrain 9⟩

example : ((IdlePolicy.spin 4).waiter.useAll [.wait] |>.reset 100 false |>.drain 16).1 = 7 := by
  decide

end Waiter

end RingCall
