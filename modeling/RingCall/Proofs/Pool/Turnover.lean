import RingCall.Pool.Settle
import RingCall.Proofs.Pool.Step

/-!
# One job after the other

The workers of a pool take turns in any order (`Pool.GoesOn`), until no turn is left but the end of
a job (`Pool.Settled`). In a pool in which no job is queued a new one is taken by a worker that
waits (`Poised.submit`). When it has ended, the worker finds nothing spilled and waits again
(`Poised.finish`). The other workers, and the jobs that they run, stay where they are. This holds
for any number of workers and any length of the channel.

`Pool.settle` takes one order of the turns (`goesOn_settle`, `settled_settle`).
-/

namespace RingCall

variable {J : Type}

/-- Whether an event is a turn of a worker that has no job to run. -/
def PoolEvent.isTurn : PoolEvent J → Bool
  | receive _ | look _ => true
  | submit _ | append | finish _ _ | close => false

/-- A turn is something that the pool does by itself. -/
theorem PoolEvent.isOwn_of_isTurn {e : PoolEvent J} (h : e.isTurn = true) : e.isOwn = true := by
  cases e with
  | receive | look => rfl
  | submit | append | finish | close => cases h

namespace Pool

variable {p q r : Pool J} {i : Nat} {w : Worker J} {job : J}

/-- The workers take turns, any number of them and in any order, and no job ends. -/
def GoesOn (p q : Pool J) : Prop :=
  ∃ events : List (PoolEvent J), (∀ e ∈ events, e.isTurn = true) ∧ p.run? events = some q

/-- No turn is left while no job ends. -/
def Settled (p : Pool J) : Prop := ∀ e : PoolEvent J, e.isTurn = true → p.step e = none

namespace GoesOn

/-- No turn is an order of turns. -/
theorem refl (p : Pool J) : p.GoesOn p := ⟨[], nofun, rfl⟩

/-- Turns can be taken after turns. -/
theorem trans (h : p.GoesOn q) (h' : q.GoesOn r) : p.GoesOn r := by
  obtain ⟨events, hturns, hrun⟩ := h
  obtain ⟨events', hturns', hrun'⟩ := h'
  refine ⟨events ++ events', fun e he ↦ (List.mem_append.1 he).elim (hturns e) (hturns' e), ?_⟩
  rw [run?_append, hrun, Option.bind_some, hrun']

/-- One turn is an order of turns. -/
theorem of_step {e : PoolEvent J} (he : e.isTurn = true) (h : p.step e = some q) : p.GoesOn q :=
  ⟨[e], fun _ he' ↦ List.mem_singleton.1 he' ▸ he, by rw [run?_cons, h]; rfl⟩

/-- If each turn leads to a pool in which no turn is left, no more than one is taken. -/
theorem eq_or {P : Pool J → Prop}
    (hturn : ∀ e : PoolEvent J, e.isTurn = true → ∀ r, p.step e = some r → P r)
    (hend : ∀ r, P r → r.Settled) (h : p.GoesOn q) : q = p ∨ P q := by
  obtain ⟨events, hturns, hrun⟩ := h
  refine foldlM_preserves (P := fun q ↦ q = p ∨ P q) ?_ hrun (.inl rfl)
  rintro e he r s hstep (rfl | hr)
  · exact .inr (hturn e (hturns e he) s hstep)
  · have hnone := hend r hr e (hturns e he)
    rw [hstep] at hnone
    cases hnone

end GoesOn

/-! ### Workers that run a job, and those that run none -/

/-- The number of workers that run no job. -/
def spare (p : Pool J) : Nat := p.workers.countP (·.job?.isNone)

theorem spare_le_size (p : Pool J) : p.spare ≤ p.size := List.countP_le_length

/-- All workers are spare while none of them runs a job. -/
theorem spare_eq_size (h : p.inHand = []) : p.spare = p.size :=
  List.countP_eq_length.2 fun w hw ↦
    Option.isNone_iff_eq_none.2 (List.filterMap_eq_nil_iff.1 h w hw)

/-- A worker that takes a job is not spare any more. -/
theorem spare_setWorker (hi : p.workers[i]? = some .waiting) (job : J) :
    (p.setWorker i (.running job false)).spare + 1 = p.spare := by
  obtain ⟨before, after, heq, hset⟩ := exists_workers_eq hi (.running job false)
  rw [spare, spare, heq, hset]
  simp [Worker.job?, Nat.add_assoc]

/-- The worker that has a job in hand is known by it, if nobody else runs it. -/
theorem findIdx?_setWorker [DecidableEq J] (hi : p.workers[i]? = some w) (hnew : job ∉ p.inHand) :
    (p.setWorker i (.running job false)).workers.findIdx? (·.job? == some job) = some i := by
  obtain ⟨hlt, -⟩ := List.getElem?_eq_some_iff.1 hi
  have hothers : ∀ j (hj : j < p.workers.length), p.workers[j].job? ≠ some job := fun j hj hjob ↦
    hnew (List.mem_filterMap.2 ⟨_, List.getElem_mem hj, hjob⟩)
  rw [Pool.setWorker, List.findIdx?_eq_some_iff_getElem]
  refine ⟨by rwa [List.length_set], by simp [Worker.job?], fun j hj ↦ ?_⟩
  have hne : ¬ i = j := Nat.ne_of_gt hj
  simpa [List.getElem_set, hne] using hothers j (Nat.lt_trans hj hlt)

/-! ### Pools in which no job is queued -/

/-- The pool is open, no job is queued, and each worker waits for one or runs one. -/
structure Poised (p : Pool J) : Prop where
  channel_eq : p.channel = []
  spill_eq : p.spill = []
  held_eq : p.held = none
  isOpen : p.isOpen = true
  depth_pos : 0 < p.depth
  size_pos : 0 < p.size
  workers : ∀ w ∈ p.workers, w = .waiting ∨ ∃ job, w = .running job false

/-- No job is queued in a new pool. -/
theorem poised_new (workers depth : Nat) : (new workers depth : Pool J).Poised where
  channel_eq := rfl
  spill_eq := rfl
  held_eq := rfl
  isOpen := rfl
  depth_pos := Nat.lt_of_lt_of_le Nat.zero_lt_one (Nat.le_max_right _ _)
  size_pos := by
    rw [size_new]
    exact Nat.lt_of_lt_of_le Nat.zero_lt_one (Nat.le_max_right _ _)
  workers w hw := .inl (List.eq_of_mem_replicate hw)

namespace Poised

/-- Which jobs have ended does not matter. -/
theorem ended (h : p.Poised) (jobs : List J) : Poised { p with finished := jobs } :=
  ⟨h.channel_eq, h.spill_eq, h.held_eq, h.isOpen, h.depth_pos, h.size_pos, h.workers⟩

/-- A worker that goes on to wait or to run a job leaves nothing queued. -/
theorem setWorker (h : p.Poised) (i : Nat) {w : Worker J}
    (hw : w = .waiting ∨ ∃ job, w = .running job false) : (p.setWorker i w).Poised where
  channel_eq := h.channel_eq
  spill_eq := h.spill_eq
  held_eq := h.held_eq
  isOpen := h.isOpen
  depth_pos := h.depth_pos
  size_pos := by
    rw [size, Pool.setWorker, List.length_set]
    exact h.size_pos
  workers x hx := by
    rcases mem_setWorker hx with rfl | hx
    · exact hw
    · exact h.workers x hx

/-- The workers wait until there is a job. -/
theorem settled (h : p.Poised) : p.Settled := by
  intro e he
  match hstep : p.step e with
  | none => rfl
  | some q =>
    exfalso
    cases Step.of_eq hstep with
    | spill | send | refuse | append | finish | close => cases he
    | receive _ hchannel =>
      rw [h.channel_eq] at hchannel
      cases hchannel
    | leave _ _ hclosed =>
      rw [h.isOpen] at hclosed
      cases hclosed
    | fetch hw | rest hw | quit hw =>
      obtain hwaits | ⟨_, hruns⟩ := h.workers _ (List.mem_of_getElem? hw)
      · cases hwaits
      · cases hruns

/-- Nobody is about to look at the spill. -/
theorem ne_looking (h : p.Poised) (i : Nat) (leaving : Bool) :
    p.workers[i]? ≠ some (.looking leaving) := by
  intro hw
  obtain hwaits | ⟨_, hruns⟩ := h.workers _ (List.mem_of_getElem? hw)
  · cases hwaits
  · cases hruns

/-- A worker that runs no job waits for one. -/
theorem exists_waiting (h : p.Poised) (hspare : 0 < p.spare) :
    ∃ i : Nat, p.workers[i]? = some .waiting := by
  obtain ⟨w, hw, hnone⟩ := List.countP_pos_iff.1 hspare
  obtain rfl | ⟨job, rfl⟩ := h.workers w hw
  · exact List.mem_iff_getElem?.1 hw
  · cases hnone

/-- A job that is handed over goes into the channel. -/
theorem submit_eq (h : p.Poised) (job : J) : p.submit job = { p with channel := [job] } := by
  simp [Pool.submit, submit?, append?, h.isOpen, h.held_eq, h.spill_eq, h.channel_eq, h.depth_pos]

/-- A job that is handed over is taken by a worker that waits, if there is one. -/
theorem submit (h : p.Poised) (hspare : 0 < p.spare) (hq : (p.submit job).GoesOn q)
    (hs : q.Settled) :
    ∃ i, p.workers[i]? = some .waiting ∧ q = p.setWorker i (.running job false) := by
  rw [h.submit_eq] at hq
  refine (hq.eq_or (P := fun q ↦ ∃ i, p.workers[i]? = some .waiting ∧
    q = p.setWorker i (.running job false)) ?_ ?_).resolve_left ?_
  · intro e he r hstep
    cases Step.of_eq hstep with
    | spill | send | refuse | append | finish | close => cases he
    | @receive i _ _ hw hchannel =>
      obtain ⟨rfl, rfl⟩ := List.cons.inj hchannel
      exact ⟨i, hw, by simp [Pool.setWorker, h.channel_eq]⟩
    | leave _ hchannel => cases hchannel
    | fetch hw | rest hw | quit hw => exact absurd hw (h.ne_looking _ _)
  · rintro _ ⟨i, -, rfl⟩
    exact (h.setWorker i (.inr ⟨job, rfl⟩)).settled
  · rintro rfl
    obtain ⟨i, hi⟩ := h.exists_waiting hspare
    have hnone := hs (.receive i) rfl
    simp [step, receive?, hi] at hnone

/-- A worker whose job has ended waits for another one. -/
theorem finish (h : p.Poised) (hi : p.workers[i]? = some (.running job false)) :
    ∃ ended, p.finish? i = some ended ∧ ended.held = none ∧ ∀ q, ended.GoesOn q → q.Settled →
      q = { p with finished := p.finished ++ [job] }.setWorker i .waiting := by
  let before : Pool J := { p with finished := p.finished ++ [job] }
  have hbefore : before.Poised := h.ended _
  have hlooking : (before.setWorker i (.looking false)).workers[i]? = some (.looking false) :=
    getElem?_setWorker_self (p := before) hi
  refine ⟨before.setWorker i (.looking false), by rw [finish?, hi], h.held_eq, fun q hq hs ↦ ?_⟩
  refine (hq.eq_or (P := fun q ↦ q = before.setWorker i .waiting) ?_ ?_).resolve_left ?_
  · intro e he r hstep
    cases Step.of_eq hstep with
    | spill | send | refuse | append | finish | close => cases he
    | receive _ hchannel =>
      exact absurd (h.channel_eq.symm.trans hchannel) (List.cons_ne_nil _ _).symm
    | leave _ _ hclosed => exact absurd (h.isOpen.symm.trans hclosed) Bool.false_ne_true.symm
    | fetch _ _ hspill => exact absurd (h.spill_eq.symm.trans hspill) (List.cons_ne_nil _ _).symm
    | @rest j hw =>
      -- nobody else is about to look at the spill
      have hj : j = i := by
        by_contra hne
        rw [Pool.setWorker, List.getElem?_set_ne (Ne.symm hne)] at hw
        exact hbefore.ne_looking _ _ hw
      rw [hj]
      simp only [Pool.setWorker, List.set_set]
    | @quit j hw =>
      by_cases hj : j = i
      · rw [hj, hlooking] at hw
        cases hw
      · rw [Pool.setWorker, List.getElem?_set_ne (Ne.symm hj)] at hw
        exact absurd hw (hbefore.ne_looking _ _)
  · rintro _ rfl
    exact (hbefore.setWorker i (.inl rfl)).settled
  · rintro rfl
    have hnone := hs (.look i) rfl
    have hheld : before.held = none := h.held_eq
    have hspill : before.spill = [] := h.spill_eq
    simp [step, look?, hlooking, hheld, hspill] at hnone

end Poised

/-! ### One order of the turns -/

/-- A step of settling is a turn. -/
theorem exists_isTurn_of_advance (h : p.advance (fun _ ↦ false) = some q) :
    ∃ e : PoolEvent J, e.isTurn = true ∧ p.step e = some q := by
  obtain ⟨i, -, hi⟩ := List.exists_of_findSome?_eq_some h
  rw [advanceWorker] at hi
  split at hi
  · exact ⟨.receive i, rfl, hi⟩
  · cases hi
  · exact ⟨.look i, rfl, hi⟩
  · cases hi
  · cases hi

/-- Settling is one order of turns. -/
theorem goesOn_settle (p : Pool J) : p.GoesOn (p.settle fun _ ↦ false) :=
  runSteps_preserves (P := p.GoesOn) (fun r s hstep hr ↦ by
    obtain ⟨e, he, hs⟩ := exists_isTurn_of_advance hstep
    exact hr.trans (.of_step he hs)) _ (.refl p)

/-- No turn is left when settling can take no step. -/
theorem settled_of_advance (h : p.advance (fun _ ↦ false) = none) : p.Settled := by
  intro e he
  -- settling tries the workers one by one
  have hworker : ∀ i, p.advanceWorker (fun _ ↦ false) i = none := by
    intro i
    by_cases hi : i < p.size
    · exact List.findSome?_eq_none_iff.1 h i (List.mem_range.2 hi)
    · rw [advanceWorker, List.getElem?_eq_none (Nat.le_of_not_lt hi)]
  cases e with
  | submit | append | finish | close => cases he
  | receive i =>
    have hnone := hworker i
    rw [advanceWorker] at hnone
    rw [step]
    split at hnone
    · exact hnone
    all_goals
      next hw => simp only [receive?, hw]
  | look i =>
    have hnone := hworker i
    rw [advanceWorker] at hnone
    rw [step]
    split at hnone
    all_goals
      first
      | exact hnone
      | next hw => simp only [look?, hw]

/-- Settling goes on long enough. -/
theorem work_le_effort (hheld : p.held = none) : p.work ≤ p.effort := by
  have hsum : ∀ ws : List (Worker J), (ws.map Worker.work).sum ≤ 4 * ws.length := by
    intro ws
    induction ws with
    | nil => exact Nat.le_refl 0
    | cons w ws ih =>
      have hle := w.work_le
      rw [List.map_cons, List.sum_cons, List.length_cons]
      omega
  have hworkers := hsum p.workers
  simp only [work, size, effort, hheld, Option.toList_none, List.length_nil]
  omega

/-- The workers settle while nobody has the lock of the spill. -/
theorem settled_settle (hheld : p.held = none) : (p.settle fun _ ↦ false).Settled := by
  refine settled_of_advance (step_runSteps_eq_none (P := fun r ↦ r.held = none) work ?_ ?_ hheld
    (work_le_effort hheld))
  · intro r s hstep hr
    obtain ⟨e, he, hs⟩ := exists_isTurn_of_advance hstep
    cases Step.of_eq hs with
    | spill | send | refuse | append | finish | close => cases he
    | receive | leave | fetch | rest | quit => exact hr
  · intro r s hstep _
    obtain ⟨e, he, hs⟩ := exists_isTurn_of_advance hstep
    exact (Step.of_eq hs).work_lt (PoolEvent.isOwn_of_isTurn he)

end Pool

end RingCall
