import RingCall.Link.Channel
import RingCall.Link.Move
import RingCall.Proofs.Link.Operations
import RingCall.Proofs.Ring.Contents

/-!
# Links settle

`settle` lets the threads of a link go on for a bounded number of steps. The bound is large enough:
when it is reached no thread can go on any more (`Link.advanceFreely_settle`).

`Advance` lists what a step of settling can be. The steps that are left are counted by `Link.toil`:
each record has to enter the ring, to be taken and to be handled, and each thread has so many steps
left until it waits. What a step makes another thread do is paid for in advance. A record that the
drain thread moves may wake the consumer, and a record that the reader takes may wake the drain
thread; nobody is woken otherwise, so that each round trip of wakeups costs a record.

For this the producers have to stand still, and nobody may make room during a pass of the drain
thread, which would begin it again (`Link.Undisturbed`).
-/

namespace RingCall

variable {α : Type}

/-! ### Waiting it out -/

/-- The step that ends an idle period gives up. -/
theorem Waiter.wait_of_exhausted? {w w' : Waiter} (h : w.exhausted? = some w') :
    w'.wait.1 = true := by
  cases w with
  | yielding =>
    obtain rfl := Option.some.inj h
    rfl
  | sleeping interval max slept =>
    obtain ⟨n, hn, rfl⟩ := Option.map_eq_some_iff.1 h
    rw [patience] at hn
    split at hn
    · next hlt =>
      obtain rfl := Option.some.inj hn
      simpa [wait] using hlt
    · split at hn
      · cases hn
      · next hlt hpos =>
        -- as many intervals as fit into what is left, and one more
        obtain rfl := Option.some.inj hn
        have hmod := Nat.div_add_mod (max - slept) interval
        have hrest := Nat.mod_lt (max - slept) (Nat.pos_of_ne_zero hpos)
        rw [Nat.mul_comm] at hmod
        simp only [wait, decide_eq_true_eq]
        omega
  | spinning rounds budget taken =>
    obtain ⟨n, hn, rfl⟩ := Option.map_eq_some_iff.1 h
    obtain rfl := Option.some.inj hn
    simp only [wait, decide_eq_true_eq]
    omega

/-! ### The steps that are left -/

/-- The steps that a drain thread has left until it rests, and those of a consumer that it may
wake. -/
def Drain.toil : Drain → Nat
  | .ended => 0
  | .resting => 1
  | .checking => 2
  | .grading => 3
  | .waking => 23
  | .rousing => 24
  | .looking => 25
  | .flushing moved => if moved then 26 else 7
  | .locking => 8
  | .starting => 9

/-- The steps that a reader has left until it has tried to take a record, and those of a drain
thread that it may wake. `more` tells whether there is a record in the ring. -/
def Taking.toil (more : Bool) : Taking α → Nat
  | .taking => 20
  | .looking (some _) => 33
  | .clearing (some _) => 32
  | .nudging (some _) => 31
  | .looking none => if more then 34 else 19
  | .clearing none => if more then 33 else 18
  | .nudging none => if more then 32 else 17

/-- The steps that a consumer has left until it tries to take a record or, if there is none, until
it blocks. -/
def Stage.toil (more : Bool) : Stage α → Nat
  | .starting | .waking | .resuming false => 22
  | .heading _ | .handling _ _ _ => 21
  | .draining stage _ _ => stage.toil more
  | .idling => if more then 22 else 7
  | .clearing false => if more then 24 else 6
  | .checking false => if more then 23 else 5
  | .blocking => 4
  | .clearing true => 3
  | .checking true => 2
  | .resuming true => 1

/-- The steps that the read end has left, those for records in the ring apart. -/
def Reader.toil (more : Bool) : Reader α → Nat
  | .away | .popped _ | .crashed => 0
  | .popping stage => stage.toil more
  | .looping _ stage => stage.toil more

/-- What it may cost that a thread is woken: so many steps, if its signal is not quiet. -/
def Signal.toil (steps : Nat) (s : Signal) : Nat := if s.pending = 0 then 0 else steps

/-- A bound on the steps that a link has left until it is settled. -/
def Link.toil (l : Link α) : Nat :=
  52 * l.overflow.length + 14 * l.ring.len.toNat + l.drain.toil + l.room.toil 9 +
    l.reader.toil (!l.ring.isEmpty) + l.wake.toil 19

/-- What a consumer still has to do depends little on whether there is another record. -/
theorem Reader.toil_le (r : Reader α) (more more' : Bool) : r.toil more ≤ r.toil more' + 18 := by
  have htaking (t : Taking α) : t.toil more ≤ t.toil more' + 18 := by
    cases more <;> cases more' <;> unfold Taking.toil <;> split <;> simp
  cases r with
  | away | popped | crashed => simp [toil]
  | popping t => exact htaking t
  | looping w stage =>
    cases stage with
    | draining t count woken => exact htaking t
    | clearing leaving | checking leaving | resuming leaving =>
      cases leaving <;> cases more <;> cases more' <;> simp [toil, Stage.toil]
    | starting | heading | handling | idling | blocking | waking =>
      cases more <;> cases more' <;> simp [toil, Stage.toil]

/-- A signal leads to no more than the given number of steps. -/
theorem Signal.toil_le (steps : Nat) (s : Signal) : s.toil steps ≤ steps := by
  rw [toil]
  split <;> simp

/-- Waiting takes the notifications, so that a thread that goes on after it has been paid for. -/
theorem Signal.toil_of_ready {s s' : Signal} {n : Nat} (steps : Nat) (h : s.wait = (.ready n, s')) :
    s'.toil steps + steps = s.toil steps := by
  cases s with
  | counting k =>
    cases k with
    | zero => cases h
    | succ k =>
      obtain ⟨-, rfl⟩ := Prod.mk.inj h
      simp [toil, pending]
  | negative | unopened => cases h

/-- Whether the drain thread has moved what it could, in this pass. -/
def Drain.isThrough : Drain → Bool
  | .looking | .rousing | .waking | .grading => true
  | _ => false

namespace Link

variable {l l' : Link α}

/-- The bound of `settle` is no less. -/
theorem toil_le_effort (l : Link α) : l.toil ≤ l.effort := by
  have hdrain : l.drain.toil ≤ 26 := by
    cases l.drain <;> simp [Drain.toil]
    split <;> simp
  have hreader : l.reader.toil (!l.ring.isEmpty) ≤ 34 := by
    have htaking (t : Taking α) (more : Bool) : t.toil more ≤ 34 := by
      cases more <;> unfold Taking.toil <;> split <;> simp
    cases l.reader with
    | away | popped | crashed => simp [Reader.toil]
    | popping t => exact htaking t _
    | looping w stage =>
      cases stage with
      | draining t count woken => exact htaking t _
      | clearing leaving | checking leaving | resuming leaving =>
        cases leaving <;> cases l.ring.isEmpty <;> simp [Reader.toil, Stage.toil]
      | starting | heading | handling | idling | blocking | waking =>
        cases l.ring.isEmpty <;> simp [Reader.toil, Stage.toil]
  have hroom := l.room.toil_le 9
  have hwake := l.wake.toil_le 19
  unfold toil effort
  omega

/-! ### The steps of settling -/

/-- One step of settling. The drain thread goes first, and idle periods in which nothing happens are
passed over. -/
inductive Advance (l : Link α) : Link α → Prop where
  | drain {m} (h : DrainStep l m) : Advance l m
  | read {m} (hd : l.stepDrain = none)
      (hidle : ∀ w, l.reader = .looping w .idling → l.ring.isEmpty = false ∨ l.stopping = true)
      (h : ReaderStep l m) : Advance l m
  | giveUp {w w'} (hd : l.stepDrain = none) (hr : l.reader = .looping w .idling)
      (he : l.ring.isEmpty = true) (hs : l.stopping = false) (hw : w.exhausted? = some w') :
      Advance l { l with reader := .looping w'.wait.2 (.clearing false) }
  | handle {m} (hd : l.stepDrain = none) (h : l.handle false false = some m) : Advance l m

/-- The drain thread has nothing to do in a link that has settled. -/
theorem stepDrain_of_advance (h : l.advance = none) : l.stepDrain = none := by
  rw [advance] at h
  split at h
  · cases h
  · next hd => exact hd

/-- A link settles by steps of the drain thread and the consumer. -/
theorem Advance.of_advance (h : l.advance = some l') : Advance l l' := by
  rw [advance] at h
  split at h
  · next m hd => exact .drain (.of_eq (Option.some.inj h ▸ hd))
  · next hd =>
    split at h
    · next w hr =>
      split at h
      · next hquiet =>
        -- the steps until the period ends are passed over
        rw [Bool.and_eq_true, Bool.not_eq_true'] at hquiet
        obtain ⟨he, hs⟩ := hquiet
        obtain ⟨w', hw', hstep⟩ := Option.bind_eq_some_iff.1 h
        have hdone := Waiter.wait_of_exhausted? hw'
        rw [stepLoop] at hstep
        rcases hwait : w'.wait with ⟨done, w''⟩
        rw [hwait] at hdone
        simp only at hdone
        subst hdone
        simp only [hwait, he, Bool.not_true, Bool.true_or, Option.some.injEq] at hstep
        subst hstep
        have hafter : w'' = w'.wait.2 := by rw [hwait]
        exact hafter ▸ .giveUp hd hr he hs hw'
      · next hquiet =>
        refine .read hd (fun _ _ ↦ ?_) (.of_eq h)
        cases he : l.ring.isEmpty <;> simp_all
    · next hidle => exact .read hd (fun w hr ↦ absurd hr (hidle w)) (.of_eq h)

/-- So it does while all signals can be taken. -/
theorem Advance.of_advanceFreely (h : l.advanceFreely = some l') : Advance l l' := by
  rw [advanceFreely] at h
  split at h
  · next m hm => exact .of_advance (Option.some.inj h ▸ hm)
  · next hnone => exact .handle (stepDrain_of_advance hnone) h

/-! ### What the reader leaves alone -/

/-- Two links whose write ends are at the same point, the ring and the signals apart. -/
structure SameWriters (l l' : Link α) : Prop where
  holder_eq : l'.holder = l.holder
  producers_eq : l'.producers = l.producers
  drain_eq : l'.drain = l.drain
  overflow_eq : l'.overflow = l.overflow
  closing_eq : l'.closing = l.closing

/-- What leaves the writers alone twice leaves them alone. -/
theorem SameWriters.trans {m : Link α} (h : l.SameWriters l') (k : l'.SameWriters m) :
    l.SameWriters m where
  holder_eq := k.holder_eq.trans h.holder_eq
  producers_eq := k.producers_eq.trans h.producers_eq
  drain_eq := k.drain_eq.trans h.drain_eq
  overflow_eq := k.overflow_eq.trans h.overflow_eq
  closing_eq := k.closing_eq.trans h.closing_eq

/-- Signalling room leaves the writers alone. -/
theorem sameWriters_signalRoom (l : Link α) (f : IoError → Report) :
    l.SameWriters (l.signalRoom f) := by
  rw [signalRoom_eq]
  exact ⟨rfl, rfl, rfl, rfl, rfl⟩

/-- Taking a record leaves the writers alone. -/
theorem TakingStep.sameWriters {stage : Taking α} {next : Taking α ⊕ Option α}
    (h : TakingStep l stage next l') : l.SameWriters l' := by
  cases h with
  | take | miss | lookStuck | lookFree | clear | clearLate => exact ⟨rfl, rfl, rfl, rfl, rfl⟩
  | nudge => exact sameWriters_signalRoom l _

/-- The consumer leaves the writers alone. -/
theorem ReaderStep.sameWriters (h : ReaderStep l l') : l.SameWriters l' := by
  cases h with
  | pop _ ht | popped _ ht | take _ ht | taken _ ht | drained _ ht =>
    exact ⟨ht.sameWriters.1, ht.sameWriters.2, ht.sameWriters.3, ht.sameWriters.4, ht.sameWriters.5⟩
  | start | stop | go | spot | giveUp | idle | clear | block | leave | notice | resume | resumeAway
  | hear | fail | awake => exact ⟨rfl, rfl, rfl, rfl, rfl⟩

/-- A handler that returns leaves the record in the log, and the loop goes on. -/
theorem handle_eq_some_of_returns (h : l.handle false false = some l') :
    ∃ w item count woken, l.reader = .looping w (.handling item count woken) ∧
      l' = { l with
        handled := l.handled.push item
        reader := .looping w (.draining .taking (count + 1) woken) } := by
  rw [Link.handle] at h
  split at h
  · next w item count woken hr =>
    obtain rfl := Option.some.inj h
    exact ⟨w, item, count, woken, hr, rfl⟩
  · cases h

/-- The drain thread does not concern the reader. -/
theorem DrainStep.reader_eq (h : DrainStep l l') : l'.reader = l.reader := by
  cases h <;> simp [report]

/-- A reader that nobody has asked for anything stays as it is. -/
theorem Advance.reader_eq (h : Advance l l') (hr : l.reader.isIdle = true) :
    l'.reader = l.reader := by
  cases h with
  | drain h => exact h.reader_eq
  | read _ _ h => cases h <;> simp_all [Reader.isIdle]
  | giveUp _ hl => rw [hl] at hr; cases hr
  | handle _ h =>
    obtain ⟨_, _, _, _, hl, -⟩ := handle_eq_some_of_returns h
    rw [hl] at hr
    cases hr

/-- A step of settling is one of the drain thread or leaves the write end alone. -/
theorem Advance.sameWriters (h : Advance l l') : DrainStep l l' ∨ l.SameWriters l' := by
  cases h with
  | drain h => exact .inl h
  | read _ _ h => exact .inr h.sameWriters
  | giveUp => exact .inr ⟨rfl, rfl, rfl, rfl, rfl⟩
  | handle _ h =>
    obtain ⟨_, _, _, _, -, rfl⟩ := handle_eq_some_of_returns h
    exact .inr ⟨rfl, rfl, rfl, rfl, rfl⟩

/-! ### Nobody else is at work -/

/-- The producers stand still, and during a pass of the drain thread the ring stays as full as it
was left. -/
structure Undisturbed (l : Link α) : Prop where
  locked : l.Locked
  outside : ∀ i, (l.producers i).isLocking = false
  len_le : l.ring.len ≤ l.ring.capacity
  through : l.drain.isThrough = true → l.overflow = [] ∨ l.ring.isFull = true
  checking : l.drain = .checking → l.ring.isFull = true

/-- The drain thread cannot move a record if there is none or the ring is full. -/
theorem moveOne?_eq_none (h : l.moveOne? = none) : l.overflow = [] ∨ l.ring.isFull = true := by
  rw [moveOne?] at h
  split at h
  · next hnil => exact .inl hnil
  · exact .inr (Ring.isFull_iff.2 (Ring.push?_eq_none_iff.1 (Option.map_eq_none_iff.1 h)))

/-- A drain thread that cannot go on while no producer holds the lock rests without a notification,
or has ended. -/
theorem Locked.of_stepDrain (h : l.Locked) (hout : ∀ i, (l.producers i).isLocking = false)
    (hd : l.stepDrain = none) : l.drain = .resting ∧ l.room = .counting 0 ∨ l.drain = .ended := by
  rw [stepDrain] at hd
  cases hdrain : l.drain with
  | starting | looking | rousing | waking | checking => simp [hdrain] at hd
  | locking =>
    have hfree := h.holder_eq_none hout (by rw [hdrain]; rfl)
    simp [hdrain, hfree] at hd
  | flushing moved =>
    simp only [hdrain] at hd
    split at hd <;> cases hd
  | grading =>
    simp only [hdrain] at hd
    split at hd <;> cases hd
  | resting =>
    simp only [hdrain] at hd
    rcases hroom : l.room with (- | n) | - | - <;> simp_all [Signal.wait]
  | ended => exact .inr rfl

namespace Undisturbed

/-- A drain thread that has nothing to do rests, or has ended. -/
theorem of_stepDrain (h : l.Undisturbed) (hd : l.stepDrain = none) :
    l.drain = .resting ∧ l.room = .counting 0 ∨ l.drain = .ended :=
  h.locked.of_stepDrain h.outside hd

/-- Whoever leaves the write end alone while the drain thread rests does not disturb it. -/
theorem of_sameWriters (h : l.Undisturbed) (hd : l.stepDrain = none) (hsame : l.SameWriters l')
    (hle : l'.ring.len ≤ l'.ring.capacity) : l'.Undisturbed where
  locked := h.locked.congr hsame.holder_eq hsame.producers_eq hsame.drain_eq
  outside i := hsame.producers_eq ▸ h.outside i
  len_le := hle
  through ht := by
    rw [hsame.drain_eq] at ht
    rcases h.of_stepDrain hd with ⟨hrest, -⟩ | hend
    · rw [hrest] at ht; cases ht
    · rw [hend] at ht; cases ht
  checking hc := by
    rw [hsame.drain_eq] at hc
    rcases h.of_stepDrain hd with ⟨hrest, -⟩ | hend
    · rw [hrest] at hc; cases hc
    · rw [hend] at hc; cases hc

/-- Nobody disturbs the drain thread while it moves records. -/
theorem drainStep (h : l.Undisturbed) (hstep : DrainStep l l') : l'.Undisturbed := by
  have hlocked := h.locked.drainStep hstep
  cases hstep with
  | start | finish | lock | hear | fail | checkFull | checkRoom | clear =>
    exact ⟨hlocked, h.outside, h.len_le, nofun, nofun⟩
  | move hd hover hpush =>
    exact ⟨hlocked, h.outside, Ring.len_le_of_push? h.len_le hpush, nofun, nofun⟩
  | halt hd hm | skip hd hm =>
    have hthrough := moveOne?_eq_none hm
    exact ⟨hlocked, h.outside, h.len_le, fun _ ↦ hthrough, nofun⟩
  | lookBusy hd | lookIdle hd | rouse hd =>
    exact ⟨hlocked, h.outside, h.len_le, fun _ ↦ h.through (by rw [hd]; rfl), nofun⟩
  | wake hd =>
    exact ⟨hlocked, by simpa using h.outside, by simpa using h.len_le,
      fun _ ↦ by simpa using h.through (by rw [hd]; rfl), nofun⟩
  | flag hd hne =>
    have hfull := (h.through (by rw [hd]; rfl)).resolve_left hne
    exact ⟨hlocked, h.outside, h.len_le, nofun, fun _ ↦ hfull⟩

end Undisturbed

/-- Taking a record leaves no more records in the ring than it can hold. -/
theorem TakingStep.len_le {stage : Taking α} {next : Taking α ⊕ Option α}
    (h : TakingStep l stage next l') (hle : l.ring.len ≤ l.ring.capacity) :
    l'.ring.len ≤ l'.ring.capacity := by
  cases h with
  | take hpop => exact Ring.len_le_of_pop? hle hpop
  | miss | lookStuck | lookFree | clear | clearLate => exact hle
  | nudge => simpa using hle

/-- The consumer does not overfill the ring. -/
theorem ReaderStep.len_le (h : ReaderStep l l') (hle : l.ring.len ≤ l.ring.capacity) :
    l'.ring.len ≤ l'.ring.capacity := by
  cases h with
  | pop _ ht | popped _ ht | take _ ht | taken _ ht | drained _ ht => exact ht.len_le hle
  | start | stop | go | spot | giveUp | idle | clear | block | leave | notice | resume | resumeAway
  | hear | fail | awake => exact hle

/-- Nobody disturbs the link while it settles. -/
theorem Undisturbed.advance (h : l.Undisturbed) (hstep : Advance l l') : l'.Undisturbed := by
  cases hstep with
  | drain hstep => exact h.drainStep hstep
  | read hd _ hstep => exact h.of_sameWriters hd hstep.sameWriters (hstep.len_le h.len_le)
  | giveUp hd => exact h.of_sameWriters hd ⟨rfl, rfl, rfl, rfl, rfl⟩ h.len_le
  | handle hd hh =>
    obtain ⟨_, _, _, _, -, rfl⟩ := handle_eq_some_of_returns hh
    exact h.of_sameWriters hd ⟨rfl, rfl, rfl, rfl, rfl⟩ h.len_le

/-! ### Each step is one less -/

/-- Each step of taking a record pays for what comes next: another step, or what the reader goes on
to then, which takes `after` steps. -/
theorem TakingStep.toil_lt {stage : Taking α} {next : Taking α ⊕ Option α}
    (h : TakingStep l stage next l') (after : Nat)
    (hafter : match next with
      | .inl stage => after = stage.toil (!l'.ring.isEmpty)
      | .inr (some _) => after ≤ 21
      | .inr none => after ≤ if l'.ring.isEmpty then 7 else 22) :
    14 * l'.ring.len.toNat + l'.room.toil 9 + after <
      14 * l.ring.len.toNat + l.room.toil 9 + stage.toil (!l.ring.isEmpty) := by
  cases h with
  | take hpop =>
    have hlen := Ring.toNat_len_of_pop? hpop
    simp only [Taking.toil] at hafter ⊢
    omega
  | miss hpop =>
    have he := Ring.pop?_eq_none_iff.1 hpop
    simp only [Taking.toil, he, Bool.not_true, Bool.false_eq_true, if_false] at hafter ⊢
    omega
  | @lookStuck got | @lookFree got | @clear got | @clearLate got =>
    cases got <;> cases he : l.ring.isEmpty <;> simp [Taking.toil, he] at hafter ⊢ <;> omega
  | @nudge got =>
    -- the signal may begin a pass of the drain thread
    have hsignal : (l.signalRoom .producerNotNotified).room.toil 9 ≤ 9 := Signal.toil_le 9 _
    cases got <;> cases he : l.ring.isEmpty <;> simp [Taking.toil, he] at hafter ⊢ <;> omega

/-- Taking a record takes no wake signal. -/
theorem TakingStep.wake_eq {stage : Taking α} {next : Taking α ⊕ Option α}
    (h : TakingStep l stage next l') : l'.wake = l.wake := by
  cases h with
  | take | miss | lookStuck | lookFree | clear | clearLate => rfl
  | nudge => simp

/-- Each step of the consumer leaves it less to do, unless it idles. -/
theorem ReaderStep.toil_lt (h : ReaderStep l l')
    (hidle : ∀ w, l.reader = .looping w .idling → l.ring.isEmpty = false ∨ l.stopping = true) :
    l'.toil < l.toil := by
  have hsame := h.sameWriters
  rw [toil, toil, hsame.overflow_eq, hsame.drain_eq]
  cases h with
  | pop hr ht | take hr ht =>
    have hlt := ht.toil_lt _ rfl
    have hwake := ht.wake_eq
    simp only [hr, Reader.toil, Stage.toil, hwake]
    omega
  | @popped _ got _ hr ht =>
    have hlt := ht.toil_lt 0 (by cases got <;> simp)
    have hwake := ht.wake_eq
    simp only [hr, Reader.toil, hwake]
    omega
  | taken hr ht =>
    have hlt := ht.toil_lt 21 (Nat.le_refl 21)
    have hwake := ht.wake_eq
    simp only [hr, Reader.toil, Stage.toil, hwake]
    omega
  | @drained _ _ _ _ m hr ht =>
    have hlt := ht.toil_lt _ (Nat.le_refl _)
    have hwake := ht.wake_eq
    simp only [hr, Reader.toil, Stage.toil, hwake]
    cases he : m.ring.isEmpty <;> simp [he] at hlt ⊢ <;> omega
  | start hr | stop hr | go hr | resume hr | resumeAway hr | awake hr =>
    simp [hr, Reader.toil, Stage.toil, Taking.toil]
  | spot hr _ he =>
    simp [hr, Reader.toil, Stage.toil, he]
  | giveUp hr _ he =>
    simp [hr, Reader.toil, Stage.toil, he]
  | idle hr _ he hd =>
    -- a period in which nothing happens is passed over
    rcases hidle _ hr with hne | hs
    · rw [he] at hne; cases hne
    · rw [hs, Bool.or_true] at hd; cases hd
  | @clear _ leaving hr | @notice _ leaving hr he =>
    cases leaving <;> cases he : l.ring.isEmpty <;> simp_all [Reader.toil, Stage.toil]
  | block hr he | leave hr he =>
    simp [hr, Reader.toil, Stage.toil, he]
  | hear hr hw =>
    have hpaid := Signal.toil_of_ready 19 hw
    simp only [hr, Reader.toil, Stage.toil]
    omega
  | fail hr =>
    simp [hr, Reader.toil, Stage.toil, report]

/-- Each step of the drain thread leaves less to do. -/
theorem DrainStep.toil_lt (h : DrainStep l l') (hl : l.Undisturbed) : l'.toil < l.toil := by
  rw [toil, toil]
  cases h with
  | start hd | finish hd | lock hd | halt hd | skip hd | lookBusy hd | lookIdle hd | rouse hd
  | clear hd | flag hd | checkFull hd =>
    simp [hd, Drain.toil]
  | @move moved record rest ring hd hover hpush =>
    -- the record pays for a reader that finds it, and for the signal that follows
    have hlen := Ring.toNat_len_of_push? hl.len_le hpush
    have hreader := l.reader.toil_le (!ring.isEmpty) (!l.ring.isEmpty)
    cases moved <;> simp only [hd, hover, Drain.toil, List.length_cons, reduceIte,
      Bool.false_eq_true] <;> omega
  | wake hd =>
    have hsignal : (l.signalWake .consumerNotNotified).wake.toil 19 ≤ 19 := Signal.toil_le 19 _
    simp only [hd, Drain.toil, ring_signalWake, overflow_signalWake, room_signalWake,
      reader_signalWake]
    omega
  | checkRoom hd hroom => exact absurd (hl.checking hd) (by simp [hroom])
  | hear hd hr =>
    have hpaid := Signal.toil_of_ready 9 hr
    simp only [hd, Drain.toil]
    omega
  | fail hd => simp [hd, Drain.toil, report]

/-- **Each step of settling leaves less to do.** -/
theorem Advance.toil_lt (h : Advance l l') (hl : l.Undisturbed) : l'.toil < l.toil := by
  cases h with
  | drain h => exact h.toil_lt hl
  | read _ hidle h => exact h.toil_lt hidle
  | giveUp _ hr he => simp [toil, hr, Reader.toil, Stage.toil, he]
  | handle _ h =>
    obtain ⟨w, item, count, woken, hr, rfl⟩ := handle_eq_some_of_returns h
    simp [toil, hr, Reader.toil, Stage.toil, Taking.toil]

/-! ### Settled links -/

/-- What each step of settling preserves holds of a settled link. -/
theorem settle_preserves {P : Link α → Prop} (hstep : ∀ m m', Advance m m' → P m → P m')
    (hl : P l) :
    P l.settle :=
  runSteps_preserves (fun m m' h ↦ hstep m m' (.of_advanceFreely h)) _ hl

/-- No thread of a settled link can go on. -/
theorem advanceFreely_settle (h : l.Undisturbed) : l.settle.advanceFreely = none :=
  step_runSteps_eq_none toil (fun _ _ hstep hm ↦ hm.advance (.of_advanceFreely hstep))
    (fun _ _ hstep hm ↦ (Advance.of_advanceFreely hstep).toil_lt hm) h l.toil_le_effort

end Link

/-! ### Settled channels -/

/-- A handler that handles every record. -/
def Conduct.free : Conduct α where
  permits := none
  quitAt := none
  panicAt := none
  isGuarded := true

namespace Channel

variable [DecidableEq α] {c : Channel α}

/-- A channel with a handler that handles every record settles as its link does. -/
theorem settle_of_free (hc : c.conduct = some .free) :
    c.settle = { c with link := c.link.settle } := by
  have hcomm : ∀ l : Link α, advance { c with link := l } =
      l.advanceFreely.map fun l ↦ { c with link := l } := by
    intro l
    rw [advance, Link.advanceFreely]
    cases ha : l.advance with
    | some m => rfl
    | none =>
      simp only [handle, hc, Link.handle, Reader.inHand?]
      cases hr : l.reader with
      | looping w stage => cases stage <;> simp [mayHandle, Conduct.free]
      | away | popping | popped | crashed => simp
  exact runSteps_map (P := fun _ ↦ True) (fun l ↦ { c with link := l }) (fun _ _ _ _ ↦ trivial)
    (fun l _ ↦ hcomm l) c.link.effort trivial

/-- A channel that nobody reads settles as its link does. -/
theorem settle_of_isIdle (hc : c.conduct = none) (hr : c.link.reader.isIdle = true) :
    c.settle = { c with link := c.link.settle } := by
  have hstep : ∀ l m : Link α, l.advanceFreely = some m → l.reader.isIdle = true →
      m.reader.isIdle = true := by
    intro l m hadvance hl
    rw [(Link.Advance.of_advanceFreely hadvance).reader_eq hl, hl]
  have hcomm : ∀ l : Link α, l.reader.isIdle = true → advance { c with link := l } =
      l.advanceFreely.map fun l ↦ { c with link := l } := by
    intro l hl
    rw [advance, Link.advanceFreely]
    cases ha : l.advance with
    | some m => rfl
    | none => cases hreader : l.reader <;> simp_all [handle, Link.handle, Reader.isIdle]
  exact runSteps_map (fun l ↦ { c with link := l }) hstep hcomm c.link.effort hr

end Channel

end RingCall
