/-!
# Running step functions

A step function says what comes after a state, or that nothing does. `runSteps` goes on until
nothing comes next, but takes no more steps than it is allowed; `Comes` relates a state to those
that some number of steps lead to.
-/

namespace RingCall

variable {σ : Type}

/-- Takes steps until none is possible, at most `n` of them. -/
def runSteps (step : σ → Option σ) : Nat → σ → σ
  | 0, s => s
  | n + 1, s =>
    match step s with
    | some s => runSteps step n s
    | none => s

/-- The states that steps lead to. -/
inductive Comes (step : σ → Option σ) : σ → σ → Prop where
  | refl (s : σ) : Comes step s s
  | next {s t u : σ} : step s = some t → Comes step t u → Comes step s u

theorem comes_runSteps (step : σ → Option σ) (n : Nat) (s : σ) :
    Comes step s (runSteps step n s) := by
  induction n generalizing s with
  | zero => exact .refl s
  | succ n ih =>
    rw [runSteps]
    split
    · next t h => exact .next h (ih t)
    · exact .refl s

end RingCall
