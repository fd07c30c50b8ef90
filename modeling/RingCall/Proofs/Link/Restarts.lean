import RingCall.Proofs.Link.Delivery
import RingCall.Proofs.Link.Tasks

/-!
# Consumers that come and go

Requests are made, consumers are started and consumers are asked to end, one thing after the other
(`Task`). Each time the threads take turns, in any order, until the link is settled. Then nobody is
half way (`Link.Composed`), and what the next task finds is what the records and the flags say: a
consumer that has ended may leave records in the ring and parked, notifications that it did not wait
for, and flags that it or the producers set.

None of this keeps the next consumer from its records. It looks at the ring before it trusts any
flag, and what comes of that look is `Link.Attended`, which holds from the start on since no request
is under way.

A consumer that is asked to end takes no more records (`Link.Leaving`). It clears the working flag,
looks at the ring once more, and sets the flag again if there is something in the ring.
-/

namespace RingCall

variable {α : Type}

/-- What is asked of a link, one thing after the other. -/
inductive Task (α : Type) where
  /-- A producer makes a request. -/
  | request (i : Nat) (r : Request α)
  /-- A consumer is started. -/
  | start (policy : IdlePolicy)
  /-- The consumer is asked to end. -/
  | stop
  deriving DecidableEq, Repr

namespace Task

/-- The move with which a task begins. -/
def move : Task α → Move α
  | request i r => .request i r
  | start policy => .start policy
  | stop => .askToStop

/-- The records that are sent. -/
def items : Task α → List α
  | request _ r => r.items
  | start _ | stop => []

/-- Whether a consumer is started. -/
def isStart : Task α → Bool
  | start _ => true
  | request _ _ | stop => false

/-- At most one consumer runs at a time, and only one that runs is asked to end. -/
def isAllowed (l : Link α) : Task α → Bool
  | request _ _ => true
  | start _ => l.reader.isIdle
  | stop => l.reader.isLooping

end Task

namespace Link

variable {l l' : Link α} {ring : Ring α} {sent : List α}

/-- A task is taken up, and the threads take turns until the link is settled. -/
structure Undergoes (l : Link α) (t : Task α) (l' : Link α) : Prop where
  allowed : t.isAllowed l = true
  goesOn : ∃ m, l.move? t.move = some m ∧ m.GoesOn l'
  settled : l'.Settled

/-- Several tasks are undergone, one after the other. -/
inductive UndergoesAll : Link α → List (Task α) → Link α → Prop where
  | nil (l : Link α) : UndergoesAll l [] l
  | cons {l m l' : Link α} {t : Task α} {ts : List (Task α)} (h : l.Undergoes t m)
      (hs : UndergoesAll m ts l') : UndergoesAll l (t :: ts) l'

/-- Carries out a task: the producer first, and then the other threads as they settle. -/
def carryOut (l : Link α) : Task α → Link α
  | .request i r => (l.request i r).2.settle
  | .start policy => (l.start policy).settle
  | .stop => l.askToStop.settle

/-! ### Between tasks -/

/-- What holds of a link between tasks, when the records in `sent` were sent. -/
structure Composed (ring : Ring α) (sent : List α) (l : Link α) : Prop where
  tidy : ∀ i, Tidy ring i sent l
  settled : l.Settled

/-- A tidy link is composed when no turn is left. -/
theorem Tidy.composed {i : Nat} (h : Tidy ring i sent l) (hs : l.Settled) :
    Composed ring sent l := by
  have hplaced := h.placed
  rw [Producer.held_of_isIdle (hs.producers i)] at hplaced
  refine ⟨fun j ↦ { h with others := fun k _ ↦ hs.producers k, placed := ?_ }, hs⟩
  rw [Producer.held_of_isIdle (hs.producers j)]
  exact hplaced

/-- A consumer that has settled is blocked without a notification, or idles with nothing to take. -/
theorem Running.of_settled (h : l.Running) (hs : l.Settled) :
    ∃ w, l.reader = .looping w .blocking ∧ l.wake = .counting 0 ∨
      l.reader = .looping w .idling ∧ l.ring.isEmpty = true := by
  rcases hs.reader with ⟨hread, hhand⟩ | ⟨w, hr, he, -⟩
  · have hstaying := h.staying
    cases hr : l.reader with
    | away | popping | popped | crashed => rw [hr] at hstaying; cases hstaying
    | looping w stage =>
      cases stage with
      | starting | heading | draining | idling | clearing | checking | resuming | waking =>
        simp [stepReader, stepLoop, hr] at hread
      | handling => simp [Link.handle, hr] at hhand
      | blocking =>
        refine ⟨w, .inl ⟨rfl, ?_⟩⟩
        rcases hwake : l.wake with (- | n) | - | - <;>
          simp_all [stepReader, stepLoop, Signal.wait]
  · exact ⟨w, .inr ⟨hr, he⟩⟩

namespace Composed

/-- No producer is inside a composed link. -/
theorem outside (h : Composed ring sent l) (i : Nat) : (l.producers i).isLocking = false := by
  obtain ⟨last, hp⟩ := Producer.exists_of_isIdle (h.settled.producers i)
  rw [hp]
  rfl

/-- The records of a composed link have their places. -/
theorem placed (h : Composed ring sent l) : Placed ring sent [] l := by
  have hplaced := (h.tidy 0).placed
  rwa [Producer.held_of_isIdle (h.settled.producers 0)] at hplaced

/-- A composed link is at rest. -/
theorem atRest (h : Composed ring sent l) : l.AtRest := by
  have htidy := h.tidy 0
  obtain ⟨hdrain, hroom⟩ : l.drain = .resting ∧ l.room = .counting 0 :=
    (htidy.tended.locked.of_stepDrain h.outside h.settled.drain).resolve_right
      htidy.serviced.drain_ne
  exact ⟨⟨htidy.tended.locked, h.outside, h.placed.len_le, by rw [hdrain]; nofun,
    by rw [hdrain]; nofun⟩, htidy.serviced.closing, hdrain, hroom⟩

/-- The reader has no record in hand, and is not about to see to the stuck flag. -/
theorem reader (h : Composed ring sent l) :
    l.reader.carried = [] ∧ l.reader.isReleasing = false := by
  rcases (h.tidy 0).reader with haway | hrunning
  · rw [haway]
    exact ⟨rfl, rfl⟩
  · obtain ⟨w, ⟨hr, -⟩ | ⟨hr, -⟩⟩ := hrunning.of_settled h.settled <;> rw [hr] <;> exact ⟨rfl, rfl⟩

/-- All records are kept in order, those handled first, then those stored, then those parked. -/
theorem kept (h : Composed ring sent l) (hlasts : ring.Lasts sent.length) :
    l.handled.toList ++ l.ring.contents ++ l.overflow.map (·.item) = sent := by
  have hkept := (h.placed.conveys_all hlasts).kept
  rwa [h.reader.1, List.append_nil] at hkept

/-- Each record is handled, stored or parked, whatever the counters do. -/
theorem length_eq (h : Composed ring sent l) :
    l.handled.size + l.ring.len.toNat + l.overflow.length = sent.length := by
  have hlength := h.placed.length_eq
  rwa [l.length_entered, h.reader.1] at hlength

/-- No record is parked when the ring is empty. -/
theorem overflow_eq_nil (h : Composed ring sent l) (he : l.ring.isEmpty = true) :
    l.overflow = [] := by
  have hrest := h.atRest
  have hgraded := (h.tidy 0).tended.graded hrest.drain_eq hrest.room_eq h.outside h.reader.2
  by_contra hne
  have hfull := Ring.isFull_iff.1 (hgraded.1 hne).1
  rw [Ring.isEmpty_iff.1 he] at hfull
  exact l.ring.capacity_ne_zero hfull.symm

/-- A consumer has taken all records when it has settled. -/
theorem isEmpty (h : Composed ring sent l) (hrunning : l.Running) (hattended : l.Attended) :
    l.ring.isEmpty = true := by
  obtain ⟨hrouser, hwaker⟩ := h.atRest.no_duty h.settled.producers
  obtain ⟨w, ⟨hr, hwake⟩ | ⟨-, he⟩⟩ := hrunning.of_settled h.settled
  · exact (hattended.of_isBlocked (by rw [hr]; rfl) hwake hrouser hwaker).2
  · exact he

/-! ### Requests -/

/-- A link is tidy while a request is under way. -/
theorem request (h : Composed ring sent l) (i : Nat) (r : Request α) :
    Tidy ring i (sent ++ r.items) (l.setProducer i (.asking r)) := by
  have htidy := h.tidy i
  have hmove : l.move? (.request i r) = some (l.setProducer i (.asking r)) :=
    if_pos (h.settled.producers i)
  have hserviced : (l.setProducer i (.asking r)).Serviced :=
    ⟨htidy.serviced.closing, htidy.serviced.drain_ne, htidy.serviced.room⟩
  refine ⟨htidy.tended.move hmove, fun j hj ↦ ?_, hserviced, htidy.wake, ?_, ?_⟩
  · rw [producers_setProducer_of_ne l i _ hj]
    exact h.settled.producers j
  · exact htidy.reader.imp id fun hr ↦ ⟨hserviced, hr.wake, hr.stopping, hr.staying⟩
  · rw [producers_setProducer_self]
    exact (h.placed.send r.items).congr (.refl _) rfl rfl rfl

/-! ### Starting -/

/-- A link is tidy while a consumer starts, and the consumer runs and is attended to. -/
theorem start (h : Composed ring sent l) (hidle : l.reader.isIdle = true) (policy : IdlePolicy) :
    Tidy ring 0 sent (l.start policy) ∧ (l.start policy).Running ∧ (l.start policy).Attended := by
  have htidy := h.tidy 0
  have hmove : l.move? (.start policy) = some (l.start policy) := if_pos hidle
  have hrunning : (l.start policy).Running :=
    ⟨⟨htidy.serviced.closing, htidy.serviced.drain_ne, htidy.serviced.room⟩, htidy.wake, rfl, rfl⟩
  have hentered : (l.start policy).entered = l.entered := by
    rw [entered, entered, h.reader.1]
    rfl
  have hplaced : Placed ring sent ((l.start policy).producers 0).held (l.start policy) :=
    htidy.placed.of_entered rfl rfl h.placed.len_le (Nat.le_refl _) hentered
  refine ⟨⟨htidy.tended.move hmove, htidy.others, hrunning.serviced, htidy.wake,
    .inr hrunning, hplaced⟩, hrunning, ?_, fun hlistening ↦ ?_, fun hblocked ↦ ?_⟩
  · exact fun i ↦ (Producer.of_isIdle (h.settled.producers i)).1
  -- it is about to look at the ring, and listens to nothing before that
  · cases hlistening
  · cases hblocked

/-- A consumer that was started has taken all records when the link has settled. -/
theorem isEmpty_of_start (h : Composed ring sent l) (hidle : l.reader.isIdle = true)
    {policy : IdlePolicy} (hl : (l.start policy).GoesOn l') (hs : l'.Settled) :
    l'.ring.isEmpty = true := by
  obtain ⟨htidy, hrunning, hattended⟩ := h.start hidle policy
  have hrunning' : l'.Running := hl.preserves (fun _ hm _ _ hmove hr ↦ hr.turn hm hmove) hrunning
  have hattended' : l'.Attended :=
    hl.preserves (fun m hm _ _ hmove ha ↦ ha.move (Move.isQuiet_of_isTurn hm) hmove) hattended
  exact ((htidy.goesOn hl).composed hs).isEmpty hrunning' hattended'

end Composed

/-! ### Ending -/

/-- How far a consumer is that was asked to end while it was blocked or idle. Unless it is on its
way out, a notification keeps it from blocking. -/
def IsEnding (l : Link α) : Prop :=
  match l.reader with
  | .away => l.ring.isWorking = !l.ring.isEmpty
  | .looping _ stage =>
    match stage with
    | .idling | .clearing false | .checking false | .resuming false | .blocking =>
      l.wake ≠ .counting 0
    | .heading _ | .waking | .clearing true => True
    | .checking true => l.ring.isWorking = false
    | .resuming true => l.ring.isEmpty = false
    | .starting | .draining _ _ _ | .handling _ _ _ => False
  | .popping _ | .popped _ | .crashed => False

/-- A consumer was asked to end, since when no record has moved. -/
structure Leaving (before l : Link α) : Prop where
  sameWriters : before.SameWriters l
  room_eq : l.room = before.room
  alike : before.ring.Alike l.ring
  handled_eq : l.handled = before.handled
  stopping : l.stopping = true
  wake : l.wake.isOpen = true
  ending : l.IsEnding

namespace Leaving

variable {before : Link α}

/-- The consumer goes on, and all that it changes is a flag of the ring and the notifications. -/
theorem goOn (h : Leaving before l) {ring : Ring α} {wake : Signal} {reader : Reader α}
    (halike : l.ring.Alike ring) (hwake : wake.isOpen = l.wake.isOpen)
    (hending : ({ l with ring, wake, reader } : Link α).IsEnding) :
    Leaving before { l with ring, wake, reader } where
  sameWriters := h.sameWriters.trans ⟨rfl, rfl, rfl, rfl, rfl⟩
  room_eq := h.room_eq
  alike := h.alike.trans halike
  handled_eq := h.handled_eq
  stopping := h.stopping
  wake := hwake.trans h.wake
  ending := hending

/-- A consumer that leaves goes on leaving by steps of its own. -/
theorem readerStep (h : Leaving before l) (hstep : ReaderStep l l') : Leaving before l' := by
  have hending := h.ending
  rw [IsEnding] at hending
  cases hstep with
  | pop hr | popped hr | start hr | take hr | taken hr | drained hr =>
    rw [hr] at hending; exact hending.elim
  | go _ hs => rw [h.stopping] at hs; cases hs
  | idle _ _ _ hd => rw [h.stopping, Bool.or_true] at hd; cases hd
  | fail _ hw => exact absurd hw (Signal.wait_ne_failed h.wake)
  | stop | spot => exact h.goOn (.refl _) rfl trivial
  | giveUp hr | block hr =>
    rw [hr] at hending
    exact h.goOn (.refl _) rfl hending
  | @clear w leaving hr =>
    rw [hr] at hending
    refine h.goOn (l.ring.alike_setWorking false) rfl ?_
    cases leaving with
    | false => exact hending
    | true => exact l.ring.isWorking_setWorking false
  | @notice w leaving hr he =>
    rw [hr] at hending
    refine h.goOn (.refl _) rfl ?_
    cases leaving with
    | false => exact hending
    | true => exact he
  | leave hr he =>
    -- the flag was cleared, and nothing has come in since
    rw [hr] at hending
    refine h.goOn (.refl _) rfl ?_
    show l.ring.isWorking = !l.ring.isEmpty
    rw [he, hending]
    rfl
  | resume | awake => exact h.goOn (l.ring.alike_setWorking true) rfl trivial
  | resumeAway hr =>
    rw [hr] at hending
    refine h.goOn (l.ring.alike_setWorking true) rfl ?_
    show (l.ring.setWorking true).isWorking = !(l.ring.setWorking true).isEmpty
    rw [Ring.isWorking_setWorking, Ring.isEmpty_setWorking, hending]
    rfl
  | hear _ hw => exact h.goOn (.refl _) (Signal.isOpen_of_wait hw) trivial

/-- Only the consumer takes turns. -/
theorem turn (hb : Composed ring sent before) (h : Leaving before l) {m : Move α}
    (hm : m.isTurn = true) (hmove : l.move? m = some l') : Leaving before l' := by
  cases m with
  | produce i =>
    have hidle : (l.producers i).isIdle = true := by
      rw [h.sameWriters.producers_eq]
      exact hb.settled.producers i
    rw [move?_produce_of_isIdle hidle] at hmove
    cases hmove
  | drain =>
    have hdrain := h.sameWriters.drain_eq.trans hb.atRest.drain_eq
    have hroom := h.room_eq.trans hb.atRest.room_eq
    simp [move?, stepDrain, hdrain, hroom, Signal.wait] at hmove
  | read => exact h.readerStep (.of_eq hmove)
  | handle quits panics =>
    cases quits <;> cases panics <;> cases hm
    obtain ⟨_, _, _, _, hr, -⟩ := handle_eq_some_of_returns hmove
    have hending := h.ending
    rw [IsEnding, hr] at hending
    exact hending.elim
  | request | fetch | start | askToStop | close => cases hm

/-- A consumer that has settled after it was asked to end has ended. -/
theorem away (h : Leaving before l) (hs : l.Settled) :
    l.reader = .away ∧ l.ring.isWorking = !l.ring.isEmpty := by
  have hending := h.ending
  rw [IsEnding] at hending
  rcases hs.reader with ⟨hread, -⟩ | ⟨w, -, -, hstopping⟩
  · cases hr : l.reader with
    | away => rw [hr] at hending; exact ⟨rfl, hending⟩
    | popping | popped | crashed => rw [hr] at hending; exact hending.elim
    | looping w stage =>
      rw [hr] at hending
      cases stage with
      | starting | draining | handling => exact hending.elim
      | heading | idling | clearing | checking | resuming | waking =>
        simp [stepReader, stepLoop, hr] at hread
      | blocking =>
        -- there is a notification, so that it does not wait
        rcases hwake : l.wake with (- | n) | - | - <;> simp_all [stepReader, stepLoop, Signal.wait]
  · rw [h.stopping] at hstopping
    cases hstopping

/-- A consumer that has ended leaves all records where they are. -/
theorem placed (hb : Composed ring sent before) (h : Leaving before l) (haway : l.reader = .away) :
    Placed ring sent [] l := by
  have halike := h.alike
  have hover := h.sameWriters.overflow_eq
  have hreach : l.reach = before.reach := by
    rw [reach, reach, halike.head_eq, halike.len_eq, hover]
  have hentered : l.entered = before.entered := by
    rw [entered, entered, h.handled_eq, haway, hb.reader.1, halike.contents_eq]
    rfl
  refine hb.placed.of_entered hover halike.capacity_eq ?_ hreach.le hentered
  rw [halike.len_eq, halike.capacity_eq]
  exact hb.placed.len_le

end Leaving

namespace Composed

/-- A consumer that is asked to stop leaves. -/
theorem leaving (h : Composed ring sent l) (hrunning : l.Running) : Leaving l l.askToStop := by
  have hreader : l.askToStop.reader = l.reader := by simp [askToStop]
  have hending : l.askToStop.IsEnding := by
    have hwake : l.askToStop.wake ≠ .counting 0 := wake_signalWake_ne _ _
    rw [IsEnding, hreader]
    obtain ⟨w, ⟨hr, -⟩ | ⟨hr, -⟩⟩ := hrunning.of_settled h.settled <;> rw [hr] <;> exact hwake
  refine ⟨⟨?_, ?_, ?_, ?_, ?_⟩, ?_, ?_, ?_, ?_, ?_, hending⟩ <;> simp [askToStop, hrunning.wake]
  exact .refl _

/-- A consumer that is asked to end does so, and hands nothing over any more. -/
theorem stop (h : Composed ring sent l) (hlooping : l.reader.isLooping = true)
    (hl : l.askToStop.GoesOn l') (hs : l'.Settled) :
    Composed ring sent l' ∧ l'.reader = .away ∧ l'.handled = l.handled ∧
      l'.ring.isWorking = !l'.ring.isEmpty := by
  have htidy := h.tidy 0
  have hrunning : l.Running := htidy.reader.resolve_left fun haway ↦ by
    rw [haway] at hlooping
    cases hlooping
  have hleaving : Leaving l l' :=
    hl.preserves (fun _ hm _ _ hmove hk ↦ hk.turn h hm hmove) (h.leaving hrunning)
  have htended : l'.Tended :=
    hl.preserves (fun _ _ _ _ hmove ht ↦ ht.move hmove) (htidy.tended.move (m := .askToStop) rfl)
  obtain ⟨haway, hworking⟩ := hleaving.away hs
  have hafter : Tidy ring 0 sent l' := by
    refine ⟨htended, fun j _ ↦ hs.producers j,
      hleaving.sameWriters.serviced htidy.serviced (congrArg _ hleaving.room_eq), hleaving.wake,
      .inl haway, ?_⟩
    rw [Producer.held_of_isIdle (hs.producers 0)]
    exact hleaving.placed h haway
  exact ⟨hafter.composed hs, haway, hleaving.handled_eq, hworking⟩

end Composed

/-! ### One task after the other -/

/-- A link is tidy when it has just been opened. -/
theorem tidy_opened {wake room : Signal} (hempty : ring.isEmpty = true) (hwake : wake.isOpen = true)
    (hroom : room.isOpen = true) : Tidy ring 0 [] (opened ring wake room) := by
  have hunread := unread_opened hempty hwake hroom
  exact ⟨hunread.tended, fun j _ ↦ hunread.idle j, hunread.serviced, hunread.wake,
    .inl hunread.reader_eq, hunread.placed⟩

/-- No turn is left when a link that has just been opened has settled. -/
theorem settled_opened {wake room : Signal} (hempty : ring.isEmpty = true)
    (hwake : wake.isOpen = true) (hroom : room.isOpen = true) :
    (opened ring wake room).settle.Settled :=
  settled_settle (unread_opened hempty hwake hroom).undisturbed fun _ ↦ rfl

namespace Composed

/-- A link is composed when it has been opened, in whatever order the threads took turns. -/
theorem opened {wake room : Signal} (hempty : ring.isEmpty = true) (hwake : wake.isOpen = true)
    (hroom : room.isOpen = true) (hl : (Link.opened ring wake room).GoesOn l) (hs : l.Settled) :
    Composed ring [] l :=
  ((tidy_opened hempty hwake hroom).goesOn hl).composed hs

/-- **It is composed after each task**, in whatever order the threads take turns. -/
theorem undergoes (h : Composed ring sent l) {t : Task α} (ht : l.Undergoes t l') :
    Composed ring (sent ++ t.items) l' := by
  obtain ⟨m, hm, hgoes⟩ := ht.goesOn
  cases t with
  | request i r =>
    obtain rfl := Option.some.inj ((if_pos (h.settled.producers i)).symm.trans hm)
    exact ((h.request i r).goesOn hgoes).composed ht.settled
  | start policy =>
    obtain rfl := Option.some.inj ((if_pos ht.allowed).symm.trans hm)
    rw [Task.items, List.append_nil]
    exact ((h.start ht.allowed policy).1.goesOn hgoes).composed ht.settled
  | stop =>
    obtain rfl := Option.some.inj hm
    rw [Task.items, List.append_nil]
    exact (h.stop ht.allowed hgoes ht.settled).1

/-- It is composed after all tasks, one after the other. -/
theorem undergoesAll (h : Composed ring sent l) {ts : List (Task α)} (hts : l.UndergoesAll ts l') :
    Composed ring (sent ++ ts.flatMap Task.items) l' := by
  induction hts generalizing sent with
  | nil => simpa using h
  | cons ht _ ih =>
    have hrest := ih (h.undergoes ht)
    rwa [List.append_assoc, ← List.flatMap_cons] at hrest

/-- What carrying out a task does is one of the things that can come of it. -/
theorem undergoes_carryOut (h : Composed ring sent l) {t : Task α} (ht : t.isAllowed l = true) :
    l.Undergoes t (l.carryOut t) := by
  have hrest := h.atRest
  cases t with
  | request i r =>
    have hmove : l.move? (.request i r) = some (l.setProducer i (.asking r)) :=
      if_pos (h.settled.producers i)
    -- first the producer alone, then all the threads
    have hrun : (l.setProducer i (.asking r)).GoesOn (l.request i r).2 := by
      have hsteps := GoesOn.runSteps (fun m m' hs ↦ .of_move (m := .produce i) rfl hs) requestSteps
        (l.setProducer i (.asking r))
      rw [Link.request]
      split <;> exact hsteps
    have hidle : ∀ j, ((l.request i r).2.producers j).isIdle = true := fun j ↦ by
      rw [request_eq hrest.holder_eq]
      by_cases hj : j = i
      · rw [hj, producers_setProducer_self]
        rfl
      · rw [producers_setProducer_of_ne _ _ _ hj, producers_fulfil]
        exact h.settled.producers j
    exact ⟨ht, ⟨_, hmove, hrun.trans (goesOn_settle _)⟩,
      settled_settle (hrest.request i r).1 hidle⟩
  | start policy =>
    have hundisturbed : (l.start policy).Undisturbed :=
      hrest.undisturbed.of_sameWriters hrest.stepDrain_eq ⟨rfl, rfl, rfl, rfl, rfl⟩ h.placed.len_le
    exact ⟨ht, ⟨_, if_pos ht, goesOn_settle _⟩, settled_settle hundisturbed h.settled.producers⟩
  | stop =>
    have hundisturbed : l.askToStop.Undisturbed := by
      refine hrest.undisturbed.of_sameWriters hrest.stepDrain_eq ⟨?_, ?_, ?_, ?_, ?_⟩ ?_ <;>
        simp [askToStop]
      exact h.placed.len_le
    have hidle : ∀ j, (l.askToStop.producers j).isIdle = true := by
      simpa [askToStop] using h.settled.producers
    exact ⟨ht, ⟨_, rfl, goesOn_settle _⟩, settled_settle hundisturbed hidle⟩

end Composed

/-- No turn starts a consumer, and without one nothing is handed over. -/
theorem GoesOn.of_away (hl : l.GoesOn l') (haway : l.reader = .away) :
    l'.reader = .away ∧ l'.handled = l.handled := by
  refine hl.preserves (P := fun m ↦ m.reader = .away ∧ m.handled = l.handled) ?_ ⟨haway, rfl⟩
  rintro m hturn u u' hmove ⟨haway, hhandled⟩
  cases m with
  | produce j =>
    have hstep := ProducerStep.of_eq hmove
    exact ⟨hstep.reader_eq.trans haway, hstep.handled_eq.trans hhandled⟩
  | drain =>
    have hstep := DrainStep.of_eq hmove
    exact ⟨hstep.reader_eq.trans haway, hstep.handled_eq.trans hhandled⟩
  | read => simp [move?, stepReader, haway] at hmove
  | handle => simp [move?, Link.handle, haway] at hmove
  | request | fetch | start | askToStop | close => cases hturn

/-- Without a consumer nothing is handed over, until one is started. -/
theorem undergoes_of_away (hr : l.reader = .away) {t : Task α} (hstart : t.isStart = false)
    (ht : l.Undergoes t l') : l'.reader = .away ∧ l'.handled = l.handled := by
  obtain ⟨m, hm, hgoes⟩ := ht.goesOn
  cases t with
  | start => cases hstart
  | stop =>
    have hallowed := ht.allowed
    rw [Task.isAllowed, hr] at hallowed
    cases hallowed
  | request i r =>
    rw [Task.move, move?] at hm
    split at hm
    · obtain rfl := Option.some.inj hm
      exact hgoes.of_away hr
    · cases hm

/-- Nothing is handled while no consumer is started. -/
theorem undergoesAll_of_away (hr : l.reader = .away) {ts : List (Task α)}
    (hstart : ∀ t ∈ ts, t.isStart = false) (hts : l.UndergoesAll ts l') :
    l'.handled = l.handled := by
  induction hts with
  | nil => rfl
  | cons ht _ ih =>
    obtain ⟨haway, hhandled⟩ := undergoes_of_away hr (hstart _ List.mem_cons_self) ht
    exact (ih haway fun t h ↦ hstart t (List.mem_cons_of_mem _ h)).trans hhandled

/-- **Records survive the consumers that they are sent to.** Let requests be made, consumers started
and consumers ended on an empty ring, one thing after the other, while the threads take turns in any
order until the link is settled. Each of these things can be carried out. At any time the records
handed over, in the ring and parked are as many as were sent, and they are the ones that were sent,
in their order, as long as the slots of the ring stay in turn. A consumer that is started has
nothing left to take, neither from the ring nor from what was parked, whatever the flags and the
notifications that it found. A consumer that is ended leaves the working flag set if there is
something in the ring, and clear otherwise, and from then on nothing is handed over until another
consumer is started. -/
theorem kept_of_undergoesAll {ring : Ring α} {wake room : Signal} (hempty : ring.isEmpty = true)
    (hwake : wake.isOpen = true) (hroom : room.isOpen = true) :
    (∃ l, (opened ring wake room).GoesOn l ∧ l.Settled) ∧
    ∀ (l₀ : Link α) (ts : List (Task α)) (l : Link α),
      (opened ring wake room).GoesOn l₀ → l₀.Settled → l₀.UndergoesAll ts l →
      let sent := ts.flatMap Task.items
      (∀ t : Task α, t.isAllowed l = true → l.Undergoes t (l.carryOut t)) ∧
      l.handled.size + l.ring.len.toNat + l.overflow.length = sent.length ∧
      (ring.Lasts sent.length →
        l.handled.toList ++ l.ring.contents ++ l.overflow.map (·.item) = sent) ∧
      (∀ policy l', l.Undergoes (.start policy) l' → l'.ring.isEmpty = true ∧ l'.overflow = [] ∧
        l'.handled.size = sent.length ∧ (ring.Lasts sent.length → l'.handled.toList = sent)) ∧
      (∀ l', l.Undergoes .stop l' → l'.ring.isWorking = !l'.ring.isEmpty) ∧
      ∀ (later : List (Task α)) (l' : Link α), (∀ t ∈ later, t.isStart = false) →
        l.UndergoesAll (.stop :: later) l' → l'.handled = l.handled := by
  refine ⟨⟨_, goesOn_settle _, settled_opened hempty hwake hroom⟩, ?_⟩
  intro l₀ ts l hgoes hs hts sent
  -- what a settled link consists of is preserved by each task
  have hcomposed : Composed ring sent l :=
    (Composed.opened hempty hwake hroom hgoes hs).undergoesAll hts
  refine ⟨fun t ↦ hcomposed.undergoes_carryOut, hcomposed.length_eq, hcomposed.kept, ?_, ?_, ?_⟩
  · intro policy l' ht
    have hafter : Composed ring sent l' := by simpa [Task.items] using hcomposed.undergoes ht
    obtain ⟨m, hm, hgoes'⟩ := ht.goesOn
    obtain rfl := Option.some.inj ((if_pos ht.allowed).symm.trans hm)
    have he := hcomposed.isEmpty_of_start ht.allowed hgoes' ht.settled
    have hnil := hafter.overflow_eq_nil he
    refine ⟨he, hnil, ?_, fun hlasts ↦ ?_⟩
    · have hlength := hafter.length_eq
      rwa [Ring.isEmpty_iff.1 he, hnil] at hlength
    · have hkept := hafter.kept hlasts
      rwa [Ring.contents_eq_nil_iff.2 he, hnil, List.map_nil, List.append_nil,
        List.append_nil] at hkept
  · intro l' ht
    obtain ⟨m, hm, hgoes'⟩ := ht.goesOn
    obtain rfl := Option.some.inj hm
    exact (hcomposed.stop ht.allowed hgoes' ht.settled).2.2.2
  · rintro later l' hstart (- | ⟨ht, hlater⟩)
    obtain ⟨m, hm, hgoes'⟩ := ht.goesOn
    obtain rfl := Option.some.inj hm
    obtain ⟨-, haway, hhandled, -⟩ := hcomposed.stop ht.allowed hgoes' ht.settled
    exact (undergoesAll_of_away haway hstart hlater).trans hhandled

/-- Of two records that are sent to a ring for one, the second one is parked. A consumer takes both,
and a record that is sent after that has ended stays in the ring. -/
theorem kept_of_undergoesAll_roomForOne :
    ((Ring.blank 1 (by decide) : Ring Nat).isEmpty = true ∧ Signal.quiet.isOpen = true) ∧
    ∃ l₀ l m n,
      (opened (Ring.blank 1 (by decide) : Ring Nat) .quiet .quiet).GoesOn l₀ ∧ l₀.Settled ∧
      l₀.UndergoesAll [.request 0 (.push 1), .request 1 (.pushAwaited 2 0)] l ∧
      l.Undergoes (.start .yield) m ∧ (m.ring.isEmpty = true ∧ m.handled.toList = [1, 2]) ∧
      m.UndergoesAll [.stop, .request 0 (.push 3)] n ∧ n.handled = m.handled ∧
      n.handled.toList ++ n.ring.contents ++ n.overflow.map (·.item) = [1, 2, 3] := by
  have hempty : (Ring.blank 1 (by decide) : Ring Nat).isEmpty = true := rfl
  have hquiet : Signal.quiet.isOpen = true := rfl
  have hgoes := goesOn_settle (opened (Ring.blank 1 (by decide) : Ring Nat) .quiet .quiet)
  have hs := settled_opened hempty hquiet hquiet
  obtain ⟨-, hrun⟩ := kept_of_undergoesAll hempty hquiet hquiet
  have hfirst := (hrun _ [] _ hgoes hs (.nil _)).1 (.request 0 (.push 1)) rfl
  have hsecond := (hrun _ _ _ hgoes hs (.cons hfirst (.nil _))).1
    (.request 1 (.pushAwaited 2 0)) rfl
  have hsent := UndergoesAll.cons hfirst (.cons hsecond (.nil _))
  obtain ⟨hcan, -, -, hstart, -, -⟩ := hrun _ _ _ hgoes hs hsent
  have hserved := hcan (.start .yield) (by decide +kernel)
  obtain ⟨he, -, -, hall⟩ := hstart _ _ hserved
  have hthree := UndergoesAll.cons hfirst (.cons hsecond (.cons hserved (.nil _)))
  obtain ⟨hcan, -, -, -, -, hstop⟩ := hrun _ _ _ hgoes hs hthree
  have hended := hcan .stop (by decide +kernel)
  have hfour := UndergoesAll.cons hfirst (.cons hsecond (.cons hserved (.cons hended (.nil _))))
  have hlast := (hrun _ _ _ hgoes hs hfour).1 (.request 0 (.push 3)) rfl
  have hfive :=
    UndergoesAll.cons hfirst (.cons hsecond (.cons hserved (.cons hended (.cons hlast (.nil _)))))
  obtain ⟨-, -, hkept, -, -, -⟩ := hrun _ _ _ hgoes hs hfive
  have hafter := UndergoesAll.cons hended (.cons hlast (.nil _))
  exact ⟨⟨hempty, hquiet⟩, _, _, _, _, hgoes, hs, hsent, hserved,
    ⟨he, hall (.inr (by decide))⟩, hafter, hstop _ _ (by simp [Task.isStart]) hafter,
    hkept (.inr (by decide))⟩

/-- Where the slots get out of turn, a consumer that is started takes the second of two records
twice, and the first one is lost. -/
theorem lost_of_undergoesAll :
    let control : Control := { head := 18446744073709551615, tail := 18446744073709551615 }
    let ring : Ring Nat := ⟨3, control, fun _ ↦ 0, by decide⟩
    ring.isEmpty = true ∧ ∃ l₀ l, (opened ring .quiet .quiet).GoesOn l₀ ∧ l₀.Settled ∧
      l₀.UndergoesAll [.request 0 (.pushQuietly 1), .request 0 (.pushQuietly 2), .start .yield] l ∧
      l.handled.toList ++ l.ring.contents ++ l.overflow.map (·.item) = [2, 2] := by
  intro control ring
  have hempty : ring.isEmpty = true := rfl
  have hquiet : Signal.quiet.isOpen = true := rfl
  have hgoes := goesOn_settle (opened ring .quiet .quiet)
  have hs := settled_opened hempty hquiet hquiet
  have hbegun := Composed.opened hempty hquiet hquiet hgoes hs
  have hfirst := hbegun.undergoes_carryOut (t := .request 0 (.pushQuietly 1)) rfl
  have hone := hbegun.undergoes hfirst
  have hsecond := hone.undergoes_carryOut (t := .request 0 (.pushQuietly 2)) rfl
  have hstart := (hone.undergoes hsecond).undergoes_carryOut (t := .start .yield)
    (by decide +kernel)
  exact ⟨hempty, _, _, hgoes, hs, .cons hfirst (.cons hsecond (.cons hstart (.nil _))),
    by decide +kernel⟩

end Link

end RingCall
