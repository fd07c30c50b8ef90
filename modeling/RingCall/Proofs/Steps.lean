import RingCall.Steps

/-!
# What holds after a run

Facts about step functions, from which the facts about runs are derived. What each step preserves
holds after a run (`Comes.preserves`), and a run that is allowed as many steps as a measure that
each step decreases goes on until nothing comes next (`step_runSteps_eq_none`). Where steps are
chosen from a list, a run preserves what each of the chosen steps preserves (`foldlM_preserves`).
-/

namespace RingCall

variable {σ : Type} {step : σ → Option σ} {P : σ → Prop}

theorem Comes.preserves (hstep : ∀ s t, step s = some t → P s → P t) {s t : σ}
    (h : Comes step s t) (hs : P s) : P t := by
  induction h with
  | refl _ => exact hs
  | next hst _ ih => exact ih (hstep _ _ hst hs)

theorem runSteps_preserves (hstep : ∀ s t, step s = some t → P s → P t) (n : Nat) {s : σ}
    (hs : P s) : P (runSteps step n s) :=
  (comes_runSteps step n s).preserves hstep hs

/-- A run stays where nothing comes next. -/
theorem runSteps_of_eq_none {s : σ} (h : step s = none) (n : Nat) : runSteps step n s = s := by
  cases n with
  | zero => rfl
  | succ n => rw [runSteps, h]

/-- A run with enough steps for a measure that each step decreases ends where nothing comes next. -/
theorem step_runSteps_eq_none (μ : σ → Nat) (hstep : ∀ s t, step s = some t → P s → P t)
    (hμ : ∀ s t, step s = some t → P s → μ t < μ s) {n : Nat} {s : σ} (hs : P s) (hn : μ s ≤ n) :
    step (runSteps step n s) = none := by
  induction n generalizing s with
  | zero =>
    -- a next step would decrease a measure that is 0
    rcases hst : step s with - | t
    · exact hst
    · exact absurd (hμ s t hst hs) (by omega)
  | succ n ih =>
    rw [runSteps]
    rcases hst : step s with - | t
    · exact hst
    · have hlt := hμ s t hst hs
      exact ih (hstep s t hst hs) (by omega)

/-- Runs of two step functions agree if a map takes the steps of one to those of the other. -/
theorem runSteps_map {τ : Type} {step' : τ → Option τ} (f : σ → τ)
    (hstep : ∀ s t, step s = some t → P s → P t)
    (hmap : ∀ s, P s → step' (f s) = (step s).map f) (n : Nat) {s : σ} (hs : P s) :
    runSteps step' n (f s) = f (runSteps step n s) := by
  induction n generalizing s with
  | zero => rfl
  | succ n ih =>
    rw [runSteps, runSteps, hmap s hs]
    rcases hst : step s with - | t
    · rfl
    · exact ih (hstep s t hst hs)

/-- What each step from a list preserves holds after all of them, if all can be taken. -/
theorem foldlM_preserves {τ : Type} {act : σ → τ → Option σ} {ms : List τ}
    (hact : ∀ m ∈ ms, ∀ s t, act s m = some t → P s → P t) {s t : σ} (h : ms.foldlM act s = some t)
    (hs : P s) : P t := by
  induction ms generalizing s with
  | nil =>
    obtain rfl := Option.some.inj h
    exact hs
  | cons m ms ih =>
    rw [List.foldlM_cons] at h
    obtain ⟨u, hsu, hut⟩ := Option.bind_eq_some_iff.1 h
    exact ih (fun m' hm' ↦ hact m' (List.mem_cons_of_mem _ hm')) hut
      (hact m List.mem_cons_self s u hsu hs)

end RingCall
