import Mathlib.Data.List.Perm.Basic
import RingCall.Proofs.Pool.Step

/-!
# No job is lost

A journal of a pool writes down which jobs were handed over and which were taken by workers, each
with the lane it waits in, and which workers are in the debt of the spill. It is made from the
events as they happen (`PoolJournal.note`).

What the journal says is what the pool has (`PoolJournal.Kept`): the jobs that were handed over
through a lane are those taken from it and those waiting in it, in this order, and the workers have
in hand or have run what was taken. It follows that a pool whose workers go on runs each job once
(`PoolJournal.accounts_run?`).
-/

namespace RingCall

variable {J : Type}

/-- Where a job waits until a worker takes it. -/
inductive Lane where
  | channel
  /-- The spill, or on the way into it. -/
  | spill
  deriving DecidableEq, Repr

/-- The jobs that wait in a lane, the one that is taken first at the front. -/
def Pool.waitingAt (p : Pool J) : Lane → List J
  | .channel => p.channel
  | .spill => p.spill ++ p.held.toList

/-- The job that a worker has in hand. -/
def Pool.jobOf (p : Pool J) (i : Nat) : Option J := p.workers[i]?.bind Worker.job?

/-- The job of a worker is the one that it has been given. -/
theorem Pool.jobOf_setWorker {p : Pool J} {i : Nat} {w : Worker J} (h : p.workers[i]? = some w)
    (w' : Worker J) : (p.setWorker i w').jobOf i = w'.job? := by
  rw [jobOf, getElem?_setWorker_self h, Option.bind_some]

/-- A worker is in the debt of the spill. -/
def Pool.Owes (p : Pool J) (i : Nat) : Prop := ∃ w, p.workers[i]? = some w ∧ w.isOwing = true

namespace Pool

variable {p : Pool J} {i : Nat} {w : Worker J}

/-- Whether a worker owes is seen from what it does. -/
theorem owes_iff (h : p.workers[i]? = some w) : p.Owes i ↔ w.isOwing = true := by
  simp [Owes, h]

/-- What one worker does changes nothing for the debts of the others. -/
theorem owes_setWorker (h : p.workers[i]? = some w) (w' : Worker J) (k : Nat) :
    (p.setWorker i w').Owes k ↔ if k = i then w'.isOwing = true else p.Owes k := by
  split
  · next hk =>
    subst hk
    exact owes_iff (getElem?_setWorker_self h)
  · next hk => rw [Owes, setWorker, List.getElem?_set_ne (Ne.symm hk), Owes]

/-- A worker is in debt as before. -/
theorem owes_setWorker_of_eq (h : p.workers[i]? = some w) (w' : Worker J)
    (hw' : w'.isOwing = w.isOwing) (k : Nat) : (p.setWorker i w').Owes k ↔ p.Owes k := by
  rw [owes_setWorker h]
  split
  · next hk => rw [hk, owes_iff h, hw']
  · rfl

end Pool

/-- A pool with a record of what has happened in it. -/
structure PoolJournal (J : Type) where
  pool : Pool J
  /-- The jobs that were handed over. -/
  handed : List (Lane × J)
  /-- The jobs that workers have taken. -/
  taken : List (Lane × J)
  /-- The workers that have taken a job from the channel and have not found the spill empty
  since. -/
  debtors : List Nat
  deriving DecidableEq

namespace PoolJournal

variable {j k : PoolJournal J} {q : Pool J} {e : PoolEvent J} {events : List (PoolEvent J)}

/-- The journal of a pool in which nothing has happened. -/
def new (workers depth : Nat) : PoolJournal J := ⟨.new workers depth, [], [], []⟩

/-- Writes an event down, after which the pool is `q`. -/
def note (j : PoolJournal J) (e : PoolEvent J) (q : Pool J) : PoolJournal J :=
  match e with
  | .submit job =>
    let lane := if j.pool.channel.length < q.channel.length then .channel else .spill
    { j with pool := q, handed := j.handed ++ [(lane, job)] }
  | .receive i =>
    { j with
      pool := q
      taken := j.taken ++ (q.jobOf i).toList.map (Lane.channel, ·)
      debtors := if (q.jobOf i).isSome then i :: j.debtors else j.debtors }
  | .look i =>
    { j with
      pool := q
      taken := j.taken ++ (q.jobOf i).toList.map (Lane.spill, ·)
      debtors := if j.pool.spill.isEmpty then j.debtors.filter (· ≠ i) else j.debtors }
  | .append | .finish _ _ | .close => { j with pool := q }

/-- Lets something happen and writes it down. -/
def perform? (j : PoolJournal J) (e : PoolEvent J) :
    Option (PoolJournal J) := (j.pool.step e).map (j.note e)

/-- Lets things happen one after another and writes them down, if all of them can. -/
def run? (j : PoolJournal J) (events : List (PoolEvent J)) : Option (PoolJournal J) :=
  events.foldlM perform? j

theorem run?_cons (j : PoolJournal J) (e : PoolEvent J) (events : List (PoolEvent J)) :
    j.run? (e :: events) = (j.perform? e).bind (·.run? events) := List.foldlM_cons

/-- Among jobs, those of a lane. -/
def along (lane : Lane) (l : List (Lane × J)) : List J := (l.filter (·.1 = lane)).map Prod.snd

@[simp] theorem along_append (lane : Lane) (l l' : List (Lane × J)) :
    along lane (l ++ l') = along lane l ++ along lane l' := by
  rw [along, List.filter_append, List.map_append, along, along]

@[simp] theorem along_singleton (lane lane' : Lane) (job : J) :
    along lane [(lane', job)] = if lane' = lane then [job] else [] := by
  by_cases h : lane' = lane <;> simp [along, h]

/-- Each job has a lane. -/
theorem perm_along (l : List (Lane × J)) :
    (along .channel l ++ along .spill l).Perm (l.map Prod.snd) := by
  have hspill : along .spill l = (l.filter fun x ↦ !decide (x.1 = .channel)).map Prod.snd := by
    refine congrArg (List.map Prod.snd) (List.filter_congr fun x _ ↦ ?_)
    rcases x.1 <;> rfl
  rw [hspill, along, ← List.map_append]
  exact (List.filter_append_perm _ l).map Prod.snd

@[simp] theorem pool_note (j : PoolJournal J) (e : PoolEvent J) (q : Pool J) :
    (j.note e q).pool = q := by
  cases e <;> rfl

/-! ### What is written down -/

section note

variable {i : Nat} {job : J} {rest : List J} {leaving : Bool}

/-- A job that is taken from the channel is noted along its lane. -/
theorem note_receive (hw : j.pool.workers[i]? = some .waiting) :
    j.note (.receive i) ({ j.pool with channel := rest }.setWorker i (.running job false)) =
      { pool := { j.pool with channel := rest }.setWorker i (.running job false)
        handed := j.handed, taken := j.taken ++ [(.channel, job)], debtors := i :: j.debtors } := by
  have hjob := Pool.jobOf_setWorker (p := { j.pool with channel := rest }) hw (.running job false)
  simp [note, hjob, Worker.job?]

/-- Nothing is noted when a worker finds the channel closed. -/
theorem note_leave (hw : j.pool.workers[i]? = some .waiting) :
    j.note (.receive i) (j.pool.setWorker i (.looking true)) =
      { j with pool := j.pool.setWorker i (.looking true) } := by
  simp [note, Pool.jobOf_setWorker hw, Worker.job?]

/-- A job that is taken from the spill is noted along its lane. -/
theorem note_fetch (hw : j.pool.workers[i]? = some (.looking leaving))
    (hspill : j.pool.spill = job :: rest) :
    j.note (.look i) ({ j.pool with spill := rest }.setWorker i (.running job leaving)) =
      { j with
        pool := { j.pool with spill := rest }.setWorker i (.running job leaving)
        taken := j.taken ++ [(.spill, job)] } := by
  have hjob := Pool.jobOf_setWorker (p := { j.pool with spill := rest }) hw (.running job leaving)
  simp [note, hjob, hspill, Worker.job?]

/-- A worker that finds the spill empty pays its debt. -/
theorem note_look {w : Worker J} (hw : j.pool.workers[i]? = some (.looking leaving))
    (hspill : j.pool.spill = []) (hjob : w.job? = none) :
    j.note (.look i) (j.pool.setWorker i w) =
      { j with pool := j.pool.setWorker i w, debtors := j.debtors.filter (· ≠ i) } := by
  simp [note, Pool.jobOf_setWorker hw, hspill, hjob]

end note

/-! ### What each event preserves -/

/-- What a journal says is what its pool has. -/
structure Kept (j : PoolJournal J) : Prop where
  sound : j.pool.Sound
  order : ∀ lane, along lane j.handed = along lane j.taken ++ j.pool.waitingAt lane
  taken : (j.taken.map Prod.snd).Perm (j.pool.inHand ++ j.pool.finished)
  debtors : ∀ i, i ∈ j.debtors ↔ j.pool.Owes i

/-- The books of a new pool are in order. -/
theorem kept_new (workers depth : Nat) : (new workers depth : PoolJournal J).Kept where
  sound := Pool.sound_new workers depth
  order lane := by cases lane <;> rfl
  taken := by simp [new, Pool.new, Pool.inHand, List.filterMap_replicate, Worker.job?]
  debtors i := by
    refine ⟨fun hi ↦ absurd hi List.not_mem_nil, ?_⟩
    rintro ⟨w, hw, howing⟩
    rw [List.eq_of_mem_replicate (List.mem_of_getElem? hw)] at howing
    cases howing

/-- Each lane keeps the order in which jobs were handed over to it. -/
theorem Kept.order_note (h : j.Kept) (hstep : j.pool.Step e q) (lane : Lane) :
    along lane (j.note e q).handed = along lane (j.note e q).taken ++ q.waitingAt lane := by
  have horder := h.order lane
  cases hstep with
  | spill _ hheld | send _ hheld | append hheld =>
    cases lane <;> simp [note, horder, Pool.waitingAt, hheld]
  | refuse _ hheld hspill => cases lane <;> simp [note, horder, Pool.waitingAt, hheld, hspill]
  | receive hw hchannel =>
    rw [note_receive hw]
    cases lane <;> simp [horder, Pool.waitingAt, hchannel]
  | fetch hw _ hspill =>
    rw [note_fetch hw hspill]
    cases lane <;> simp [horder, Pool.waitingAt, hspill]
  | leave hw =>
    rw [note_leave hw]
    exact horder
  | rest hw _ hspill | quit hw _ hspill =>
    rw [note_look hw hspill rfl]
    exact horder
  | finish | close => exact horder

/-- The jobs that were taken are in hand or have ended. -/
theorem Kept.taken_note (h : j.Kept) (hstep : j.pool.Step e q) :
    ((j.note e q).taken.map Prod.snd).Perm (q.inHand ++ q.finished) := by
  have htaken := h.taken
  -- a worker that takes a job adds it to what is in hand
  have htake : ∀ lane job (q : Pool J), q.inHand.Perm (job :: j.pool.inHand) →
      ((j.taken ++ [(lane, job)]).map Prod.snd).Perm (q.inHand ++ j.pool.finished) := by
    intro lane job q hinHand
    rw [List.map_append, List.map_singleton]
    calc List.Perm (j.taken.map Prod.snd ++ [job]) (job :: j.taken.map Prod.snd) :=
          List.perm_append_singleton _ _
      List.Perm _ (job :: j.pool.inHand ++ j.pool.finished) := htaken.cons job
      List.Perm _ (q.inHand ++ j.pool.finished) := hinHand.symm.append_right _
  have hsame : ∀ {i : Nat} {w : Worker J}, j.pool.workers[i]? = some w → ∀ w', w'.job? = w.job? →
      (j.taken.map Prod.snd).Perm ((j.pool.setWorker i w').inHand ++ j.pool.finished) :=
    fun hw w' hw' ↦ htaken.trans ((Pool.perm_inHand_setWorker_of_eq hw w' hw').symm.append_right _)
  cases hstep with
  | spill | send | refuse | append | close => exact htaken
  | @receive i job rest hw =>
    rw [note_receive hw]
    exact htake _ _ _ (Pool.perm_inHand_setWorker (p := { j.pool with channel := rest }) hw _)
  | @fetch i job rest leaving hw _ hspill =>
    rw [note_fetch hw hspill]
    exact htake _ _ _ (Pool.perm_inHand_setWorker (p := { j.pool with spill := rest }) hw _)
  | @finish i job leaving _ hw =>
    have hinHand : (job :: ({ j.pool with finished := j.pool.finished ++ [job] }.setWorker i
        (.looking leaving)).inHand).Perm j.pool.inHand :=
      Pool.perm_inHand_setWorker (p := { j.pool with finished := j.pool.finished ++ [job] }) hw _
    refine htaken.trans ((hinHand.symm.append_right _).trans ?_)
    rw [List.cons_append, Pool.finished_setWorker, ← List.append_assoc]
    exact (List.perm_append_singleton _ _).symm
  | leave hw =>
    rw [note_leave hw]
    exact hsame hw (.looking true) rfl
  | rest hw _ hspill =>
    rw [note_look hw hspill rfl]
    exact hsame hw .waiting rfl
  | quit hw _ hspill =>
    rw [note_look hw hspill rfl]
    exact hsame hw .ended rfl

/-- The debtors are the workers that owe. -/
theorem Kept.debtors_note (h : j.Kept) (hstep : j.pool.Step e q) (k : Nat) :
    k ∈ (j.note e q).debtors ↔ q.Owes k := by
  have hdebtors := h.debtors k
  -- a worker that finds the spill empty is not in its debt any more
  have hpaid : ∀ {i : Nat} {w : Worker J}, j.pool.workers[i]? = some w → ∀ w', w'.isOwing = false →
      (k ∈ j.debtors.filter (· ≠ i) ↔ (j.pool.setWorker i w').Owes k) := by
    intro i w hw w' hw'
    rw [Pool.owes_setWorker hw, List.mem_filter, hdebtors]
    by_cases hk : k = i <;> simp [hk, hw']
  cases hstep with
  | spill | send | refuse | append | close => exact hdebtors
  | @receive i job rest hw =>
    rw [note_receive hw, Pool.owes_setWorker (p := { j.pool with channel := rest }) hw,
      List.mem_cons, hdebtors]
    by_cases hk : k = i
    · simp [hk, Worker.isOwing]
    · simp only [hk, false_or, if_false]
      rfl
  | @fetch i job rest leaving hw _ hspill =>
    rw [note_fetch hw hspill]
    let fetched : Pool J := { j.pool with spill := rest }
    exact hdebtors.trans
      (Pool.owes_setWorker_of_eq (p := fetched) hw (.running job leaving) rfl k).symm
  | @finish i job leaving _ hw =>
    let ended : Pool J := { j.pool with finished := j.pool.finished ++ [job] }
    exact hdebtors.trans (Pool.owes_setWorker_of_eq (p := ended) hw (.looking leaving) rfl k).symm
  | leave hw =>
    rw [note_leave hw]
    exact hdebtors.trans (Pool.owes_setWorker_of_eq hw (.looking true) rfl k).symm
  | rest hw _ hspill =>
    rw [note_look hw hspill rfl]
    exact hpaid hw .waiting rfl
  | quit hw _ hspill =>
    rw [note_look hw hspill rfl]
    exact hpaid hw .ended rfl

/-- **An event keeps the books in order.** -/
theorem Kept.note (h : j.Kept) (hstep : j.pool.Step e q) : (j.note e q).Kept where
  sound := by
    rw [pool_note]
    exact h.sound.step hstep
  order lane := by
    rw [pool_note]
    exact h.order_note hstep lane
  taken := by
    rw [pool_note]
    exact h.taken_note hstep
  debtors k := by
    rw [pool_note]
    exact h.debtors_note hstep k

/-- Any events keep the books in order. -/
theorem Kept.run? (h : j.Kept) (hrun : j.run? events = some k) : k.Kept := by
  refine foldlM_preserves (fun e _ j k hstep hj ↦ ?_) hrun h
  obtain ⟨q, hq, rfl⟩ := Option.map_eq_some_iff.1 hstep
  exact hj.note (.of_eq hq)

/-! ### The jobs of a pool -/

/-- The journal does not get in the way of the pool. -/
theorem map_pool_run? (j : PoolJournal J) (events : List (PoolEvent J)) :
    (j.run? events).map pool = j.pool.run? events := by
  induction events generalizing j with
  | nil => rfl
  | cons e events ih =>
    rw [run?_cons, Pool.run?_cons, perform?]
    cases hstep : j.pool.step e with
    | none => rfl
    | some q => simpa using ih (j.note e q)

/-- A job is noted as handed over when it is submitted, and never else. -/
theorem handed_note (j : PoolJournal J) (e : PoolEvent J) (q : Pool J) :
    (j.note e q).handed.map Prod.snd = j.handed.map Prod.snd ++ e.submitted?.toList := by
  cases e <;> simp [note, PoolEvent.submitted?]

/-- The jobs that are noted as handed over are those that were submitted. -/
theorem handed_run? (hrun : j.run? events = some k) :
    k.handed.map Prod.snd = j.handed.map Prod.snd ++ events.filterMap PoolEvent.submitted? := by
  induction events generalizing j with
  | nil =>
    obtain rfl := Option.some.inj hrun
    simp
  | cons e events ih =>
    rw [run?_cons] at hrun
    obtain ⟨mid, hmid, hrun⟩ := Option.bind_eq_some_iff.1 hrun
    obtain ⟨q, -, rfl⟩ := Option.map_eq_some_iff.1 hmid
    rw [ih hrun, handed_note, List.append_assoc]
    cases hsubmitted : e.submitted? <;> simp [hsubmitted]

/-- A job that was handed over is in one place. -/
theorem Kept.perm_places (h : j.Kept) : (j.handed.map Prod.snd).Perm
    (j.pool.channel ++ j.pool.spill ++ j.pool.held.toList ++ j.pool.inHand ++ j.pool.finished) := by
  have hwaiting : (j.handed.map Prod.snd).Perm (j.taken.map Prod.snd ++
      (j.pool.waitingAt .channel ++ j.pool.waitingAt .spill)) := by
    calc List.Perm (j.handed.map Prod.snd) (along .channel j.handed ++ along .spill j.handed) :=
          (perm_along j.handed).symm
      List.Perm _ (along .channel j.taken ++ (along .spill j.taken ++
          (j.pool.waitingAt .channel ++ j.pool.waitingAt .spill))) := by
        rw [h.order, h.order, List.append_assoc]
        exact (List.perm_append_comm_assoc _ _ _).append_left _
      List.Perm _
        (j.taken.map Prod.snd ++ (j.pool.waitingAt .channel ++ j.pool.waitingAt .spill)) := by
        rw [← List.append_assoc]
        exact (perm_along j.taken).append_right _
  calc List.Perm (j.handed.map Prod.snd)
        (j.pool.inHand ++ j.pool.finished ++
          (j.pool.waitingAt .channel ++ j.pool.waitingAt .spill)) :=
        hwaiting.trans (h.taken.append_right _)
    List.Perm _ (j.pool.waitingAt .channel ++ j.pool.waitingAt .spill ++
        (j.pool.inHand ++ j.pool.finished)) := List.perm_append_comm
    _ = _ := by simp only [Pool.waitingAt, List.append_assoc]

/-- If no job is waiting or in hand, all have been run. -/
theorem Kept.perm_finished (h : j.Kept) (hsize : 0 < j.pool.size) (hrest : j.pool.AtRest) :
    j.pool.finished.Perm (j.handed.map Prod.snd) := by
  obtain ⟨hchannel, hspill, hinHand, -⟩ := h.sound.of_atRest hsize hrest
  have hplaces := h.perm_places
  rw [hchannel, hspill, hrest.held_eq, hinHand] at hplaces
  exact hplaces.symm

/-- **No job is lost.** Take a pool that has just been made, and let jobs come, go into the spill,
be taken by workers and end, in any order. Then there is a journal of it, and at any moment

* each job that was handed over is in one place: in the channel, in the spill or on its way there,
  in the hands of a worker, or among those that were run; the length of the queue counts the first
  two;
* the jobs of each lane were taken in the order in which they came;
* while a job is spilled, the channel is not empty or there is a worker that has taken a job from
  the channel and has not found the spill empty since;
* the pool comes to rest if nothing more is asked of it, and when it does it has run all jobs, and
  has no workers any more if it was closed;
* a closed pool whose workers have ended has run all jobs. -/
theorem accounts_run? {workers depth : Nat} {p : Pool J}
    (hrun : (Pool.new workers depth).run? events = some p) :
    ∃ j : PoolJournal J, (new workers depth).run? events = some j ∧ j.pool = p ∧
      j.handed.map Prod.snd = events.filterMap PoolEvent.submitted? ∧
      (j.handed.map Prod.snd).Perm
        (p.channel ++ p.spill ++ p.held.toList ++ p.inHand ++ p.finished) ∧
      (j.taken.map Prod.snd).Perm (p.inHand ++ p.finished) ∧
      p.queued = (p.channel ++ p.spill).length ∧
      (∀ lane, along lane j.handed = along lane j.taken ++ p.waitingAt lane) ∧
      (p.spill ≠ [] → p.channel ≠ [] ∨ ∃ i ∈ j.debtors, p.Owes i) ∧
      (∀ own q, (∀ e ∈ own, e.isOwn = true) → p.run? own = some q → own.length ≤ p.work) ∧
      (p.AtRest → p.finished.Perm (j.handed.map Prod.snd) ∧
        (p.isOpen = false → ∀ w ∈ p.workers, w = .ended)) ∧
      (p.isOpen = false → (∀ w ∈ p.workers, w = .ended) →
        p.finished.Perm (j.handed.map Prod.snd)) := by
  have hmap := map_pool_run? (new workers depth) events
  rw [show (new workers depth : PoolJournal J).pool = .new workers depth from rfl, hrun] at hmap
  obtain ⟨j, hj, rfl⟩ := Option.map_eq_some_iff.1 hmap
  have hkept : j.Kept := (kept_new workers depth).run? hj
  have hsize : 0 < j.pool.size := by
    rw [Pool.size_run? hrun, Pool.size_new]
    exact Nat.lt_of_lt_of_le Nat.zero_lt_one (Nat.le_max_right _ _)
  refine ⟨j, hj, rfl, handed_run? hj, hkept.perm_places, hkept.taken, ?_, hkept.order,
    ?_, ?_, ?_, ?_⟩
  · exact List.length_append.symm
  · intro hspill
    by_cases hchannel : j.pool.channel = []
    · obtain ⟨w, hw, howing⟩ := hkept.sound.exists_isOwing hspill hchannel
      obtain ⟨i, hi⟩ := List.mem_iff_getElem?.1 hw
      have howes : j.pool.Owes i := ⟨w, hi, howing⟩
      exact .inr ⟨i, (hkept.debtors i).2 howes, howes⟩
    · exact .inl hchannel
  · intro own q hown hq
    exact Nat.le_of_add_right_le (Pool.length_add_work_le hq hown)
  · exact fun hrest ↦ ⟨hkept.perm_finished hsize hrest, (hkept.sound.of_atRest hsize hrest).2.2.2⟩
  · exact fun hclosed hended ↦ hkept.perm_finished hsize
      (hkept.sound.atRest_of_ended hclosed hended)

/-- Two workers and room for one job in the channel. The first worker runs all three jobs, of which
the first panics, and the second leaves before the last has ended. -/
def oneForAll : List (PoolEvent Nat) :=
  [.submit 10, .submit 20, .append, .receive 0, .submit 30, .finish 0 true, .look 0,
    .finish 0 false, .look 0, .close, .receive 1, .look 1, .finish 0 false, .look 0,
    .receive 0, .look 0]

/-- One worker runs all jobs, also the one that was spilled. -/
theorem accounts_oneForAll :
    ∃ p : Pool Nat, (Pool.new 2 1).run? oneForAll = some p ∧ p.isOpen = false ∧
      (∀ w ∈ p.workers, w = .ended) ∧ p.finished = [10, 20, 30] ∧
      ∃ j : PoolJournal Nat, (new 2 1).run? oneForAll = some j ∧ j.pool = p ∧
        p.finished.Perm (j.handed.map Prod.snd) ∧
        along .spill j.handed = along .spill j.taken ++ p.waitingAt .spill := by
  let p : Pool Nat := ((Pool.new 2 1).run? oneForAll).get (by decide)
  have hrun : (Pool.new 2 1).run? oneForAll = some p := (Option.some_get _).symm
  have hclosed : p.isOpen = false := by decide
  have hended : ∀ w ∈ p.workers, w = .ended := by decide
  obtain ⟨j, hj, hpool, -, -, -, -, horder, -, -, -, hfinished⟩ := accounts_run? hrun
  exact ⟨p, hrun, hclosed, hended, by decide, j, hj, hpool, hfinished hclosed hended, horder .spill⟩

end PoolJournal

end RingCall
