import Mathlib.Algebra.Ring.Nat
import RingCall.Pool.Basic
import RingCall.Proofs.Steps

/-!
# What can happen in a pool, one by one

`Pool.Step` lists what an event can be: when it happens, what was seen, and the pool that comes of
it. Every event that happens is in the list (`Step.of_eq`).

Three facts about single events are derived from it. A worker that has taken a job from the channel
is in the debt of the spill until it has found it empty, and while a job is spilled there are at
least as many such workers and jobs in the channel together as the channel is long (`Sound.owed`). A
worker leaves only when the channel is closed and empty (`Sound.leaving`). And all that a pool does
by itself uses up work that was handed over (`Step.work_lt`), so that it comes to rest; then its
workers have run all jobs (`Sound.of_atRest`).
-/

namespace RingCall

variable {J : Type}

namespace Worker

/-- Whether a worker has taken a job from the channel and has not found the spill empty since. -/
def isOwing : Worker J → Bool
  | running _ leaving | looking leaving => !leaving
  | _ => false

/-- Whether a worker has found the channel closed and empty. -/
def isLeaving : Worker J → Bool
  | running _ leaving | looking leaving => leaving
  | ended => true
  | waiting => false

/-- How much a worker can still do before it waits for the channel, or ends. -/
def work : Worker J → Nat
  | running _ leaving => if leaving then 2 else 4
  | looking leaving => if leaving then 1 else 3
  | waiting => 2
  | ended => 0

/-- A worker has at most four things left to do. -/
theorem work_le (w : Worker J) : w.work ≤ 4 := by
  match w with
  | .waiting | .ended => simp [work]
  | .running _ leaving | .looking leaving => cases leaving <;> simp [work]

/-- A worker that has run its job has less left to do. -/
theorem work_looking_lt (job : J) (leaving : Bool) :
    (looking leaving : Worker J).work < (running job leaving).work := by
  cases leaving <;> simp [work]

/-- A job that was spilled pays for the worker that runs it. -/
theorem work_running_lt (job : J) (leaving : Bool) :
    (running job leaving).work < (looking leaving : Worker J).work + 3 := by
  cases leaving <;> simp [work]

end Worker

/-- The job that an event hands over. -/
def PoolEvent.submitted? : PoolEvent J → Option J
  | submit job => some job
  | _ => none

/-- Whether an event is one of those that a pool goes on by, unlike those that are asked of it. -/
def PoolEvent.isOwn : PoolEvent J → Bool
  | submit _ | close => false
  | _ => true

namespace Pool

variable {p q : Pool J} {e : PoolEvent J} {events : List (PoolEvent J)} {i : Nat} {w w' : Worker J}

/-- What can happen in a pool. -/
inductive Step (p : Pool J) : PoolEvent J → Pool J → Prop where
  /-- A job comes while earlier ones are spilled. -/
  | spill {job} (hopen : p.isOpen = true) (hheld : p.held = none) (hspill : p.spill ≠ []) :
      Step p (.submit job) { p with spill := p.spill ++ [job] }
  | send {job} (hopen : p.isOpen = true) (hheld : p.held = none) (hspill : p.spill = [])
      (hroom : p.channel.length < p.depth) :
      Step p (.submit job) { p with channel := p.channel ++ [job] }
  /-- A job finds the channel full. -/
  | refuse {job} (hopen : p.isOpen = true) (hheld : p.held = none) (hspill : p.spill = [])
      (hfull : p.depth ≤ p.channel.length) : Step p (.submit job) { p with held := some job }
  | append {job} (hheld : p.held = some job) :
      Step p .append { p with spill := p.spill ++ [job], held := none }
  | receive {i : Nat} {job rest} (hw : p.workers[i]? = some .waiting)
      (hchannel : p.channel = job :: rest) :
      Step p (.receive i) ({ p with channel := rest }.setWorker i (.running job false))
  /-- A worker finds the channel closed and empty. -/
  | leave {i : Nat} (hw : p.workers[i]? = some .waiting) (hchannel : p.channel = [])
      (hclosed : p.isOpen = false) : Step p (.receive i) (p.setWorker i (.looking true))
  | finish {i : Nat} {job leaving panics} (hw : p.workers[i]? = some (.running job leaving)) :
      Step p (.finish i panics)
        ({ p with finished := p.finished ++ [job] }.setWorker i (.looking leaving))
  | fetch {i : Nat} {job rest leaving} (hw : p.workers[i]? = some (.looking leaving))
      (hheld : p.held = none)
      (hspill : p.spill = job :: rest) :
      Step p (.look i) ({ p with spill := rest }.setWorker i (.running job leaving))
  /-- A worker finds the spill empty. -/
  | rest {i : Nat} (hw : p.workers[i]? = some (.looking false)) (hheld : p.held = none)
      (hspill : p.spill = []) : Step p (.look i) (p.setWorker i .waiting)
  | quit {i : Nat} (hw : p.workers[i]? = some (.looking true)) (hheld : p.held = none)
      (hspill : p.spill = []) : Step p (.look i) (p.setWorker i .ended)
  | close (hopen : p.isOpen = true) (hheld : p.held = none) :
      Step p .close { p with isOpen := false }

/-- **All that an event can do is in the list.** -/
theorem Step.of_eq (h : p.step e = some q) : Step p e q := by
  match e with
  | .submit job =>
    simp only [step, submit?] at h
    split at h
    · cases h
    · next hfree =>
      obtain ⟨hopen, hheld⟩ : p.isOpen = true ∧ p.held = none := by simpa using hfree
      split at h
      · next hspill => exact Option.some.inj h ▸ .spill hopen hheld (by simpa using hspill)
      · next hspill =>
        -- the channel is tried only while nothing is spilled
        have hspill : p.spill = [] := by simpa using hspill
        split at h
        · next hroom => exact Option.some.inj h ▸ .send hopen hheld hspill hroom
        · next hfull =>
            exact Option.some.inj h ▸ .refuse hopen hheld hspill (Nat.le_of_not_lt hfull)
  | .append =>
    obtain ⟨job, hheld, rfl⟩ := Option.map_eq_some_iff.1 h
    exact .append hheld
  | .receive i =>
    simp only [step, receive?] at h
    split at h
    · next hw hchannel => exact Option.some.inj h ▸ .receive hw hchannel
    · next hw hchannel =>
      split at h
      · cases h
      · next hclosed => exact Option.some.inj h ▸ .leave hw hchannel (by simpa using hclosed)
    · cases h
  | .finish i panics =>
    simp only [step, finish?] at h
    split at h
    · next hw => exact Option.some.inj h ▸ .finish hw
    · cases h
  | .look i =>
    simp only [step, look?] at h
    split at h
    · next hw hheld hspill => exact Option.some.inj h ▸ .fetch hw hheld hspill
    · next leaving hw hheld hspill =>
      obtain rfl := Option.some.inj h
      match leaving with
      | false => exact .rest hw hheld hspill
      | true => exact .quit hw hheld hspill
    · cases h
  | .close =>
    simp only [step, close?] at h
    split at h
    · next hfree =>
      obtain ⟨hopen, hheld⟩ : p.isOpen = true ∧ p.held = none := by simpa using hfree
      exact Option.some.inj h ▸ .close hopen hheld
    · cases h

theorem run?_cons (p : Pool J) (e : PoolEvent J) (events : List (PoolEvent J)) :
    p.run? (e :: events) = (p.step e).bind (·.run? events) := List.foldlM_cons

theorem run?_append (p : Pool J) (events events' : List (PoolEvent J)) :
    p.run? (events ++ events') = (p.run? events).bind (·.run? events') := List.foldlM_append

/-! ### One worker among the others -/

section setWorker

variable (p : Pool J) (i : Nat) (w : Worker J)

@[simp] theorem channel_setWorker : (p.setWorker i w).channel = p.channel := rfl

@[simp] theorem spill_setWorker : (p.setWorker i w).spill = p.spill := rfl

@[simp] theorem held_setWorker : (p.setWorker i w).held = p.held := rfl

@[simp] theorem finished_setWorker : (p.setWorker i w).finished = p.finished := rfl

end setWorker

/-- The other workers stand where they stood when one of them does something. -/
theorem exists_workers_eq (h : p.workers[i]? = some w) (w' : Worker J) :
    ∃ before after, p.workers = before ++ w :: after ∧
      (p.setWorker i w').workers = before ++ w' :: after := by
  obtain ⟨hlt, rfl⟩ := List.getElem?_eq_some_iff.1 h
  obtain ⟨before, after, heq, -, hset⟩ : ∃ before after,
    p.workers = before ++ p.workers[i] :: after ∧
      before.length = i ∧ p.workers.set i w' = before ++ w' :: after := List.exists_of_set hlt
  exact ⟨before, after, heq, hset⟩

/-- The number of workers that are in the debt of the spill. -/
def owing (p : Pool J) : Nat := p.workers.countP Worker.isOwing

/-- One worker more or less is in debt when one does something. -/
theorem owing_setWorker (h : p.workers[i]? = some w) (w' : Worker J) :
    (p.setWorker i w').owing + w.isOwing.toNat = p.owing + w'.isOwing.toNat := by
  obtain ⟨before, after, heq, hset⟩ := exists_workers_eq h w'
  rw [owing, owing, heq, hset, List.countP_append, List.countP_append, List.countP_cons,
    List.countP_cons]
  cases w.isOwing <;> cases w'.isOwing <;> simp <;> omega

/-- A worker is the one that did something, or it stands where it stood. -/
theorem mem_setWorker {x : Worker J} (hx : x ∈ (p.setWorker i w').workers) :
    x = w' ∨ x ∈ p.workers :=
  (List.mem_or_eq_of_mem_set hx).symm

/-- The jobs in hand, as one worker sees it. -/
theorem perm_inHand_setWorker (h : p.workers[i]? = some w) (w' : Worker J) :
    (w.job?.toList ++ (p.setWorker i w').inHand).Perm (w'.job?.toList ++ p.inHand) := by
  obtain ⟨before, after, heq, hset⟩ := exists_workers_eq h w'
  have hmiddle : ∀ x : Worker J, ((before ++ x :: after).filterMap Worker.job?).Perm
      (x.job?.toList ++ (before ++ after).filterMap Worker.job?) := by
    intro x
    have hcons : (x :: (before ++ after)).filterMap Worker.job? =
        x.job?.toList ++ (before ++ after).filterMap Worker.job? := by
      cases hx : x.job? <;> simp [hx]
    exact hcons ▸ List.perm_middle.filterMap Worker.job?
  rw [inHand, inHand, heq, hset]
  calc List.Perm (w.job?.toList ++ (before ++ w' :: after).filterMap Worker.job?)
        (w.job?.toList ++ (w'.job?.toList ++ (before ++ after).filterMap Worker.job?)) :=
        (hmiddle w').append_left _
    List.Perm _ (w'.job?.toList ++ (w.job?.toList ++ (before ++ after).filterMap Worker.job?)) :=
        List.perm_append_comm_assoc _ _ _
    List.Perm _ (w'.job?.toList ++ (before ++ w :: after).filterMap Worker.job?) :=
        (hmiddle w).symm.append_left _

/-- A worker has in hand what it had. -/
theorem perm_inHand_setWorker_of_eq (h : p.workers[i]? = some w) (w' : Worker J)
    (hw' : w'.job? = w.job?) : (p.setWorker i w').inHand.Perm p.inHand := by
  have hperm := perm_inHand_setWorker h w'
  rw [hw'] at hperm
  exact (List.perm_append_left_iff _).1 hperm

/-- The worker that did something is where it went. -/
theorem getElem?_setWorker_self (h : p.workers[i]? = some w) :
    (p.setWorker i w').workers[i]? = some w' := by
  rw [setWorker, List.getElem?_set_self (List.getElem?_eq_some_iff.1 h).1]

/-- Nobody joins a pool or goes. -/
theorem Step.size_eq (hstep : Step p e q) : q.size = p.size := by
  cases hstep with
  | spill | send | refuse | append | close => rfl
  | receive | leave | finish | fetch | rest | quit => exact List.length_set

/-- Nobody joins a pool or goes, through any events. -/
theorem size_run? (hrun : p.run? events = some q) : q.size = p.size :=
  foldlM_preserves (P := fun r ↦ r.size = p.size)
    (fun _ _ _ _ hstep hr ↦ (Step.of_eq hstep).size_eq.trans hr) hrun rfl

/-- A new pool has the workers that it was asked for, and at least one. -/
theorem size_new (workers depth : Nat) : (new workers depth : Pool J).size = max workers 1 :=
  List.length_replicate

/-! ### The invariant -/

/-- **The invariant of pools.** -/
structure Sound (p : Pool J) : Prop where
  depth_pos : 0 < p.depth
  /-- A job is spilled when the channel is full, and from then on each job that a worker takes from
  the channel puts this worker in the debt of the spill. -/
  owed : p.spill ≠ [] ∨ p.held.isSome = true → p.depth ≤ p.channel.length + p.owing
  leaving : ∀ w ∈ p.workers, w.isLeaving = true → p.isOpen = false ∧ p.channel = []
  held_eq : p.isOpen = false → p.held = none

/-- The invariant holds of a new pool. -/
theorem sound_new (workers depth : Nat) : (new workers depth : Pool J).Sound where
  depth_pos := Nat.lt_of_lt_of_le Nat.zero_lt_one (Nat.le_max_right _ _)
  owed h := absurd h (by simp [new])
  leaving w hw := by
    rw [List.eq_of_mem_replicate hw]
    exact nofun
  held_eq _ := rfl

/-- A worker that does something leaves only if it may. -/
theorem Sound.leaving_setWorker (h : p.Sound)
    (hw' : w'.isLeaving = true → p.isOpen = false ∧ p.channel = []) :
    ∀ x ∈ (p.setWorker i w').workers, x.isLeaving = true → p.isOpen = false ∧ p.channel = [] := by
  intro x hx hleaving
  rcases mem_setWorker hx with rfl | hx
  · exact hw' hleaving
  · exact h.leaving x hx hleaving

/-- **Each event preserves the invariant.** -/
theorem Sound.step (h : p.Sound) (hstep : Step p e q) : q.Sound := by
  match hstep with
  | .spill hopen hheld hspill =>
    exact ⟨h.depth_pos, fun _ ↦ h.owed (.inl hspill), h.leaving, fun _ ↦ hheld⟩
  | .send hopen hheld hspill hroom =>
    refine ⟨h.depth_pos, fun howes ↦ ?_, fun w hw hleaving ↦ ?_, fun _ ↦ hheld⟩
    · exact absurd howes (by simp [hheld, hspill])
    · exact absurd (h.leaving w hw hleaving).1 (by simp [hopen])
  | .refuse hopen hheld hspill hfull =>
    -- a full channel is all that the invariant asks for while a job is spilled
    refine ⟨h.depth_pos, fun _ ↦ Nat.le_trans hfull (Nat.le_add_right _ _), h.leaving,
      fun hclosed ↦ ?_⟩
    exact absurd hclosed (by simp [hopen])
  | .append hheld =>
    exact ⟨h.depth_pos, fun _ ↦ h.owed (.inr (by simp [hheld])), h.leaving, fun _ ↦ rfl⟩
  | @Step.receive _ _ i job rest hw hchannel =>
    refine ⟨h.depth_pos, fun howes ↦ ?_, fun x hx hleaving ↦ ?_, h.held_eq⟩
    · -- the job leaves the channel and puts the worker in debt
      have howed : p.depth ≤ p.channel.length + p.owing := h.owed howes
      have howing : ({ p with channel := rest }.setWorker i (.running job false)).owing =
          p.owing + 1 := owing_setWorker (p := { p with channel := rest }) hw (.running job false)
      rw [hchannel, List.length_cons] at howed
      show p.depth ≤ rest.length + _
      omega
    · rcases mem_setWorker hx with rfl | hx
      · cases hleaving
      · exact absurd (h.leaving x hx hleaving).2 (by simp [hchannel])
  | .leave hw hchannel hclosed =>
    refine ⟨h.depth_pos, fun howes ↦ ?_, h.leaving_setWorker fun _ ↦ ⟨hclosed, hchannel⟩, h.held_eq⟩
    have howing := owing_setWorker hw (.looking true)
    exact Nat.le_trans (h.owed howes) (Nat.add_le_add_left (Nat.le_of_eq howing.symm) _)
  | @Step.finish _ _ i job leaving _ hw =>
    have hleaving : (Worker.looking leaving : Worker J).isLeaving = true →
        p.isOpen = false ∧ p.channel = [] := h.leaving (.running job leaving)
          (List.mem_of_getElem? hw)
    refine ⟨h.depth_pos, fun howes ↦ ?_, h.leaving_setWorker hleaving, h.held_eq⟩
    have howing :
      ({ p with finished := p.finished ++ [job] }.setWorker i (.looking leaving)).owing +
        (!leaving).toNat = p.owing + (!leaving).toNat :=
      owing_setWorker (p := { p with finished := p.finished ++ [job] }) hw (.looking leaving)
    exact Nat.le_trans (h.owed howes) (Nat.add_le_add_left (Nat.le_of_eq (by omega)) _)
  | @Step.fetch _ _ i job rest leaving hw hheld hspill =>
    have hleaving : (Worker.running job leaving).isLeaving = true → p.isOpen = false ∧
        p.channel = [] :=
      h.leaving (.looking leaving) (List.mem_of_getElem? hw)
    refine ⟨h.depth_pos, fun _ ↦ ?_, h.leaving_setWorker hleaving, h.held_eq⟩
    have howing : ({ p with spill := rest }.setWorker i (.running job leaving)).owing +
        (!leaving).toNat = p.owing + (!leaving).toNat :=
      owing_setWorker (p := { p with spill := rest }) hw (.running job leaving)
    have howed := h.owed (.inl (by simp [hspill]))
    exact Nat.le_trans howed (Nat.add_le_add_left (Nat.le_of_eq (by omega)) _)
  | .rest hw hheld hspill =>
    exact ⟨h.depth_pos, fun howes ↦ absurd howes (by simp [hheld, hspill]),
      h.leaving_setWorker nofun, h.held_eq⟩
  | .quit hw hheld hspill =>
    exact ⟨h.depth_pos, fun howes ↦ absurd howes (by simp [hheld, hspill]),
      h.leaving_setWorker (fun _ ↦ h.leaving _ (List.mem_of_getElem? hw) rfl), h.held_eq⟩
  | .close hopen hheld =>
    exact ⟨h.depth_pos, h.owed, fun w hw hleaving ↦
      ⟨rfl, (h.leaving w hw hleaving).2⟩, fun _ ↦ hheld⟩

/-- The invariant holds after any events. -/
theorem Sound.run? (h : p.Sound) (hrun : p.run? events = some q) : q.Sound :=
  foldlM_preserves (fun _ _ _ _ hstep hs ↦ hs.step (.of_eq hstep)) hrun h

/-- While a job is spilled, one is queued or some worker is in the debt of the spill. -/
theorem Sound.exists_isOwing (h : p.Sound) (hspill : p.spill ≠ []) (hchannel : p.channel = []) :
    ∃ w ∈ p.workers, w.isOwing = true := by
  have howed := h.owed (.inl hspill)
  rw [hchannel, List.length_nil, Nat.zero_add] at howed
  exact List.countP_pos_iff.1 (Nat.lt_of_lt_of_le h.depth_pos howed)

/-! ### Work that is left -/

/-- How much a pool can still do by itself. -/
def work (p : Pool J) : Nat :=
  3 * p.queued + 4 * p.held.toList.length + (p.workers.map Worker.work).sum

/-- The work that is left changes with the worker that does something. -/
theorem sum_work_setWorker (h : p.workers[i]? = some w) (w' : Worker J) :
    ((p.setWorker i w').workers.map Worker.work).sum + w.work =
      (p.workers.map Worker.work).sum + w'.work := by
  obtain ⟨before, after, heq, hset⟩ := exists_workers_eq h w'
  simp only [heq, hset, List.map_append, List.map_cons, List.sum_append, List.sum_cons]
  omega

/-- All that a pool does by itself uses up work. -/
theorem Step.work_lt (hstep : Step p e q) (hown : e.isOwn = true) : q.work < p.work := by
  cases hstep with
  | spill | send | refuse | close => cases hown
  | append hheld =>
    simp only [work, queued, hheld, List.length_append, List.length_singleton, Option.toList_some,
      Option.toList_none, List.length_nil]
    omega
  | @receive _ job rest hw hchannel =>
    have hsum := sum_work_setWorker hw (.running job false)
    simp only [setWorker, Worker.work, Bool.false_eq_true, if_false] at hsum
    simp only [work, queued, hchannel, setWorker, List.length_cons]
    omega
  | leave hw =>
    have hsum := sum_work_setWorker hw (.looking true)
    simp only [setWorker, Worker.work, if_true] at hsum
    simp only [work, queued, setWorker]
    omega
  | @finish _ job leaving _ hw =>
    have hsum := sum_work_setWorker hw (.looking leaving)
    -- a worker that has ended a job has less to do than one that runs it
    have hlt := Worker.work_looking_lt job leaving
    simp only [setWorker] at hsum
    simp only [work, queued, setWorker]
    omega
  | @fetch _ job rest leaving hw hheld hspill =>
    have hsum := sum_work_setWorker hw (.running job leaving)
    have hlt := Worker.work_running_lt job leaving
    simp only [setWorker] at hsum
    simp only [work, queued, hspill, setWorker, List.length_cons]
    omega
  | rest hw =>
    have hsum := sum_work_setWorker hw .waiting
    simp only [setWorker, Worker.work, Bool.false_eq_true, if_false] at hsum
    simp only [work, queued, setWorker]
    omega
  | quit hw =>
    have hsum := sum_work_setWorker hw .ended
    simp only [setWorker, Worker.work, if_true] at hsum
    simp only [work, queued, setWorker]
    omega

/-- A pool can do no more by itself than there is work. -/
theorem length_add_work_le (hrun : p.run? events = some q) (hown : ∀ e ∈ events, e.isOwn = true) :
    events.length + q.work ≤ p.work := by
  induction events generalizing p with
  | nil =>
    obtain rfl := Option.some.inj hrun
    exact Nat.le_of_eq (Nat.zero_add _)
  | cons e events ih =>
    rw [run?_cons] at hrun
    obtain ⟨r, hstep, hrun⟩ := Option.bind_eq_some_iff.1 hrun
    have hlt := (Step.of_eq hstep).work_lt (hown e List.mem_cons_self)
    have hle := ih hrun fun e' he' ↦ hown e' (List.mem_cons_of_mem _ he')
    rw [List.length_cons]
    omega

/-! ### Pools at rest -/

/-- Nothing goes on in a pool unless it is asked for something. -/
def AtRest (p : Pool J) : Prop := ∀ e : PoolEvent J, e.isOwn = true → p.step e = none

/-- Nobody has the lock of the spill in a pool at rest. -/
theorem AtRest.held_eq (h : p.AtRest) : p.held = none :=
  Option.map_eq_none_iff.1 (h .append rfl)

/-- The workers of a pool at rest wait or have ended. -/
theorem AtRest.eq_waiting_or_eq_ended (h : p.AtRest) (hw : w ∈ p.workers) :
    w = .waiting ∨ w = .ended := by
  obtain ⟨i, hi⟩ := List.mem_iff_getElem?.1 hw
  match w with
  | .waiting => exact .inl rfl
  | .ended => exact .inr rfl
  | .running job leaving =>
    have hfinish := h (.finish i false) rfl
    simp [step, finish?, hi] at hfinish
  | .looking leaving =>
    have hlook := h (.look i) rfl
    cases hspill : p.spill <;> simp [step, look?, hi, h.held_eq, hspill] at hlook

/-- A pool whose workers have ended is at rest. -/
theorem Sound.atRest_of_ended (h : p.Sound) (hclosed : p.isOpen = false)
    (hended : ∀ w ∈ p.workers, w = .ended) : p.AtRest := by
  intro e hown
  match hstep : p.step e with
  | none => rfl
  | some q =>
    exfalso
    cases Step.of_eq hstep with
    | spill | send | refuse | close => cases hown
    | append hheld => simp [h.held_eq hclosed] at hheld
    | receive hw | leave hw | finish hw | fetch hw | rest hw | quit hw =>
      cases hended _ (List.mem_of_getElem? hw)

/-- The workers of a pool at rest have run all jobs, and have ended if the pool is closed. -/
theorem Sound.of_atRest (h : p.Sound) (hsize : 0 < p.size) (hrest : p.AtRest) :
    p.channel = [] ∧ p.spill = [] ∧ p.inHand = [] ∧
      (p.isOpen = false → ∀ w ∈ p.workers, w = .ended) := by
  have hchannel : p.channel = [] := by
    obtain ⟨w, hw⟩ := List.exists_mem_of_length_pos hsize
    rcases hrest.eq_waiting_or_eq_ended hw with rfl | rfl
    · obtain ⟨i, hi⟩ := List.mem_iff_getElem?.1 hw
      have hreceive := hrest (.receive i) rfl
      cases hchannel : p.channel with
      | nil => rfl
      | cons => simp [Pool.step, receive?, hi, hchannel] at hreceive
    · exact (h.leaving .ended hw rfl).2
  refine ⟨hchannel, ?_, List.filterMap_eq_nil_iff.2 fun w hw ↦ ?_, fun hclosed w hw ↦ ?_⟩
  · by_contra hspill
    obtain ⟨w, hw, howing⟩ := h.exists_isOwing hspill hchannel
    rcases hrest.eq_waiting_or_eq_ended hw with rfl | rfl <;> cases howing
  · rcases hrest.eq_waiting_or_eq_ended hw with rfl | rfl <;> rfl
  · rcases hrest.eq_waiting_or_eq_ended hw with rfl | rfl
    · obtain ⟨i, hi⟩ := List.mem_iff_getElem?.1 hw
      have hreceive := hrest (.receive i) rfl
      simp [Pool.step, receive?, hi, hchannel, hclosed] at hreceive
    · rfl

end Pool

end RingCall
