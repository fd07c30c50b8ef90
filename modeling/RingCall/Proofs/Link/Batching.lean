import RingCall.Proofs.Link.Delivery

/-!
# Batches

Somebody who has many records to send can send them quietly and wake the consumer once, after the
last. If none waited before, that comes to the same as sending each of them and waking the consumer
each time (`Channel.batch_eq_requestAll`): in the end all are handed over in their order, nothing is
left in the ring or parked, the flags are clear and the counters have counted the records. A batch
may be longer than the ring. Then the first ones fill it and the others are parked until the
consumer makes room.

The flags and counters are the same wherever the counters are. For this `Link.goal` follows the tail
beyond the parked records: it is a word, which no step of a thread changes and which each record
that is sent moves on by one. The order of the records is as good as that of the slots
(`Ring.Lasts`). Records that are sent one by one do not need it, since each of them is alone in the
ring (`Channel.handled_pushEach`). If the slots get out of turn within a batch, the two differ
(`Channel.batch_ne_requestAll`).
-/

namespace RingCall

variable {α : Type}

/-! ### Counting the records sent -/

/-- The records that requests of some producers send. -/
def Request.allItems (rs : List (Nat × Request α)) : List α := (rs.map (·.2)).flatMap Request.items

/-- What is sent by requests, one list of them after the other. -/
theorem Request.allItems_append (rs rs' : List (Nat × Request α)) :
    allItems (rs ++ rs') = allItems rs ++ allItems rs' := by
  rw [allItems, List.map_append, List.flatMap_append]
  rfl

/-- Requests that send an item each send the items in order. -/
theorem Request.allItems_map (f : α → Request α) (hf : ∀ item, (f item).items = [item]) (i : Nat)
    (items : List α) : allItems (items.map fun item ↦ (i, f item)) = items := by
  rw [allItems, List.map_map, List.flatMap_map]
  simp only [Function.comp_apply, hf, List.flatMap_singleton']

namespace Ring

variable {r r' : Ring α} {a : α}

/-- A push moves the tail on by one slot. -/
theorem tail_of_push? (h : r.push? a = some r') : r'.control.tail = r.control.tail + 1 := by
  rw [(push?_eq_some h).2]

/-- A pop leaves the tail where it is. -/
theorem tail_of_pop? (h : r.pop? = some (a, r')) : r'.control.tail = r.control.tail := by
  rw [(pop?_eq_some h).2.2]

/-- Flags do not move the tail. -/
theorem Alike.tail_eq (h : r.Alike r') : r'.control.tail = r.control.tail := by
  rw [Ring.tail_eq, h.head_eq, h.len_eq, ← Ring.tail_eq]

end Ring

namespace Link

variable {l l' : Link α} {start : UInt64} {n : Nat}

/-- The tail, once all parked records have entered the ring. -/
def goal (l : Link α) : UInt64 := l.ring.control.tail + UInt64.ofNat l.overflow.length

/-- The goal depends on the tail and on the parked records. -/
theorem goal_congr (htail : l'.ring.control.tail = l.ring.control.tail)
    (hover : l'.overflow = l.overflow) : l'.goal = l.goal := by
  rw [goal, goal, htail, hover]

/-- Taking a record leaves the goal where it is. -/
theorem TakingStep.goal_eq {stage : Taking α} {next : Taking α ⊕ Option α}
    (h : TakingStep l stage next l') : l'.goal = l.goal := by
  refine goal_congr ?_ h.sameWriters.overflow_eq
  cases h with
  | take hpop => exact Ring.tail_of_pop? hpop
  | miss | lookStuck | lookFree | clear | clearLate => rfl
  | nudge => simp

/-- A parked record that enters the ring was counted before. -/
theorem DrainStep.goal_eq (h : DrainStep l l') : l'.goal = l.goal := by
  cases h with
  | move _ hover hpush =>
    -- the tail moves on by the record that is parked no more
    rw [goal, goal, hover, List.length_cons, Ring.tail_of_push? hpush, UInt64.ofNat_add,
      UInt64.add_comm (UInt64.ofNat _), ← UInt64.add_assoc]
    rfl
  | wake => exact goal_congr (by simp) (by simp)
  | start | finish | lock | halt | skip | lookBusy | lookIdle | rouse | clear | flag | checkFull
  | checkRoom | hear | fail =>
    rfl

/-- No step of the other threads moves the goal. -/
theorem Advance.goal_eq (h : Advance l l') : l'.goal = l.goal := by
  cases h with
  | drain h => exact h.goal_eq
  | read _ _ h =>
    cases h with
    | pop _ ht | popped _ ht | take _ ht | taken _ ht | drained _ ht => exact ht.goal_eq
    | start | stop | go | spot | giveUp | idle | clear | block | leave | notice | resume
        | resumeAway
    | hear | fail | awake => rfl
  | giveUp => rfl
  | handle _ hh =>
    obtain ⟨_, _, _, _, -, rfl⟩ := handle_eq_some_of_returns hh
    rfl

/-- A request moves it on by the records that are sent. -/
theorem goal_fulfil (l : Link α) (r : Request α) :
    (l.fulfil r).goal = l.goal + UInt64.ofNat r.items.length := by
  rw [Link.fulfil]
  rcases hr : r.sent? with - | ⟨record, wakes⟩
  · have hitems : r.items = [] := by simp [Request.items, hr]
    rw [hitems]
    exact (goal_congr l.alike_rouse.tail_eq l.overflow_rouse).trans (UInt64.add_zero _).symm
  · have hitems : r.items = [record.item] := by simp [Request.items, hr]
    rw [hitems]
    rcases hs : l.store? record.item with - | stored
    · simp only [hs, goal, (l.alike_park record).tail_eq, overflow_park, List.length_append,
        List.length_singleton, UInt64.ofNat_add, UInt64.add_assoc]
    · obtain ⟨hnil, hpush⟩ := store?_eq_some hs
      have hstored : goal { l with ring := stored } = l.goal + 1 := by
        simp only [goal, hnil, Ring.tail_of_push? hpush, List.length_nil]
        exact (UInt64.add_zero _).trans (congrArg (· + 1) (UInt64.add_zero _).symm)
      simp only [hs]
      cases wakes with
      | false => exact hstored
      | true => exact (goal_congr (alike_rouse _).tail_eq (overflow_rouse _)).trans hstored

/-! ### Consumers that block -/

/-- What holds between requests, if the consumer blocks whenever it has nothing to take, after so
many records were sent to a ring that was empty. -/
structure Dozing (start : UInt64) (n : Nat) (l : Link α) : Prop where
  calm : l.Calm
  tires : l.Tires
  goal_eq : l.goal = start + UInt64.ofNat n

/-- Nothing is in the ring or parked, and nobody has left a flag behind. -/
structure Cleared (counter : UInt64) (l : Link α) : Prop where
  isEmpty_eq : l.ring.isEmpty = true
  head_eq : l.ring.control.head = counter
  tail_eq : l.ring.control.tail = counter
  overflow_eq : l.overflow = []
  isStuck_eq : l.ring.isStuck = false
  isWorking_eq : l.ring.isWorking = false

/-- A request counts its records, and the consumer dozes again. -/
theorem Dozing.request (h : Dozing start n l) (i : Nat) (r : Request α) :
    Dozing start (n + r.items.length) (l.request i r).2.settle := by
  have hrequest := request_eq h.calm.atRest.holder_eq i r
  have htires : (l.request i r).2.Tires := by
    have htires := h.tires
    simp only [Tires] at htires ⊢
    rwa [reader_request]
  have hsettled := settle_preserves (P := fun m : Link α ↦ m.Running ∧ m.Tires)
    (fun _ _ hstep hm ↦ ⟨hm.1.advance hstep, hm.2.advance hm.1 hstep⟩)
    ⟨(h.calm.steady_request i r).running, htires⟩
  refine ⟨?_, hsettled.2, ?_⟩
  · by_cases hr : l.rouses r = true
    · exact (h.calm.request_of_rouses i fun _ ↦ hr).1
    · obtain ⟨hstays, hcalm⟩ := h.calm.request_of_not_rouses i (h.calm.isBlocked_of_tires h.tires)
        (Bool.eq_false_iff.2 hr)
      rwa [hstays]
  · have hgoal : (l.request i r).2.goal = start + UInt64.ofNat (n + r.items.length) := by
      rw [hrequest, UInt64.ofNat_add, ← UInt64.add_assoc, ← h.goal_eq]
      exact goal_fulfil l r
    exact settle_preserves (P := fun m ↦ m.goal = _)
      (fun _ _ hstep hm ↦ hstep.goal_eq.trans hm) hgoal

/-- All that is left of the records of a dozing consumer that has handled them is where the tail is.
-/
theorem Dozing.cleared (h : Dozing start n l) (he : l.ring.isEmpty = true) :
    l.Cleared (start + UInt64.ofNat n) := by
  have hnil := h.calm.overflow_eq_nil he
  have htail : l.ring.control.tail = start + UInt64.ofNat n := by
    rw [← h.goal_eq, goal, hnil]
    exact (UInt64.add_zero _).symm
  refine ⟨he, ?_, htail, hnil, h.calm.graded.2 hnil,
    h.calm.silent (h.calm.isBlocked_of_tires h.tires)⟩
  rw [← htail, Ring.tail_eq, Ring.isEmpty_iff.1 he, UInt64.add_zero]

/-- A consumer that has just been started on an empty ring dozes. -/
theorem dozing_start {ring : Ring α} {wake room : Signal} {policy : IdlePolicy}
    (hempty : ring.isEmpty = true) (hwake : wake.isOpen = true) (hroom : room.isOpen = true)
    (hgives : policy.waiter.givesUp = true) :
    Dozing ring.control.tail 0 ((opened ring wake room).settle.start policy).settle := by
  have hattending := attending_start hempty hwake hroom policy
  have htires := hattending.serving.idles
  rw [if_pos hgives] at htires
  refine ⟨hattending.calm, htires, ?_⟩
  have hkeeps (l : Link α) : l.settle.goal = l.goal :=
    settle_preserves (P := fun m ↦ m.goal = l.goal) (fun _ _ hstep hm ↦ hstep.goal_eq.trans hm) rfl
  -- starting a consumer moves no record
  have hstarted : ((opened ring wake room).settle.start policy).goal =
      (opened ring wake room).settle.goal :=
    goal_congr rfl rfl
  rw [hkeeps, hstarted, hkeeps]
  rfl

/-! ### Records that are sent one by one -/

/-- The records that were handed over are all that were sent, if none wait. -/
theorem Calm.conveys (h : l.Calm) (he : l.ring.isEmpty = true) : l.Conveys l.handled.toList where
  kept := by
    have hwaiting := h.waiting_eq_nil he
    rw [waiting] at hwaiting
    rw [List.append_assoc, hwaiting, h.carried_eq, List.append_nil, List.append_nil]
  fits := .inl (h.overflow_eq_nil he)

/-- A record that is sent while none wait is handed over, and again none wait. -/
theorem Calm.push (h : l.Calm) (he : l.ring.isEmpty = true) (i : Nat) (item : α) :
    Calm (l.request i (.push item)).2.settle ∧
      (l.request i (.push item)).2.settle.ring.isEmpty = true ∧
      (l.request i (.push item)).2.settle.handled.toList = l.handled.toList ++ [item] := by
  have hle := h.steady.undisturbed.len_le
  have hnil := h.overflow_eq_nil he
  have hstored : (l.store? item).isSome = true := by
    rw [isSome_store?_iff hle]
    refine ⟨hnil, UInt64.lt_of_le_of_ne hle ?_⟩
    rw [Ring.isEmpty_iff.1 he]
    exact Ne.symm l.ring.capacity_ne_zero
  -- a push that stores its record is one that wakes the consumer
  have hrouses : l.rouses (.push item) = true := hstored
  obtain ⟨hcalm, hempty⟩ := h.request_of_rouses i fun _ ↦ hrouses
  have hsent : (l.request i (.push item)).2.Conveys (l.handled.toList ++ [item]) := by
    obtain ⟨stored, hs⟩ := Option.isSome_iff_exists.1 hstored
    have hconveys : Conveys (l.handled.toList ++ [item]) { l with ring := stored } :=
      (h.conveys he).store hle (.inl he) hnil (store?_eq_some hs).2 hnil rfl rfl
    have hrouse : l.fulfil (.push item) = rouse { l with ring := stored } := by
      simp [fulfil, Request.sent?, hs]
    rw [request_eq h.atRest.holder_eq]
    refine hconveys.congr ?_ ?_ (l.handled_fulfil _) (l.reader_fulfil _)
    · show stored.Alike (l.fulfil (.push item)).ring
      rw [hrouse]
      exact alike_rouse { l with ring := stored }
    · show (l.fulfil (.push item)).overflow = l.overflow
      rw [hrouse]
      exact overflow_rouse _
  -- nothing that the threads do by themselves adds a record or loses one
  have hsettled := settle_preserves
    (P := fun m : Link α ↦ m.Steady ∧ m.Conveys (l.handled.toList ++ [item]))
    (fun _ _ hstep hm ↦ ⟨hm.1.advance hstep,
      hm.2.advance hm.1.undisturbed.len_le hm.1.running.staying hstep⟩)
    ⟨h.steady_request i (.push item), hsent⟩
  have hhandled := hcalm.handled_append hsettled.2
  rw [hcalm.waiting_eq_nil hempty, List.append_nil] at hhandled
  exact ⟨hcalm, hempty, hhandled⟩

end Link

/-! ### Batches and single records -/

namespace Channel

variable [DecidableEq α] {c : Channel α} {start : UInt64} {n : Nat}

/-- The consumer dozes after any requests, one after the other. -/
theorem dozing_requestAll (hc : c.conduct = some .free) (h : c.link.Dozing start n)
    (rs : List (Nat × Request α)) :
    (c.requestAll rs).conduct = some .free ∧
      (c.requestAll rs).link.Dozing start (n + (Request.allItems rs).length) := by
  induction rs generalizing c n with
  | nil => exact ⟨hc, h⟩
  | cons r rs ih =>
    have hlink := request_of_free hc r.1 r.2
    have hnext := ih (c := (c.request r.1 r.2).2) (by rw [hlink]; exact hc)
      (by rw [hlink]; exact h.request r.1 r.2)
    rw [Request.allItems, List.map_cons, List.flatMap_cons, List.length_append, ← Nat.add_assoc]
    exact hnext

/-- Records that are sent one by one while none wait are handed over one by one. -/
theorem handled_pushEach (hc : c.conduct = some .free) (hcalm : c.link.Calm)
    (he : c.link.ring.isEmpty = true) (i : Nat) (items : List α) :
    (c.requestAll (items.map fun item ↦ (i, .push item))).link.ring.isEmpty = true ∧
      (c.requestAll (items.map fun item ↦ (i, .push item))).link.handled.toList =
        c.link.handled.toList ++ items := by
  induction items generalizing c with
  | nil => exact ⟨he, (List.append_nil _).symm⟩
  | cons item items ih =>
    have hlink := request_of_free hc i (.push item)
    obtain ⟨hcalm', he', hhandled⟩ := hcalm.push he i item
    have hnext := ih (c := (c.request i (.push item)).2) (by rw [hlink]; exact hc)
      (by rw [hlink]; exact hcalm') (by rw [hlink]; exact he')
    rw [hlink, hhandled, List.append_assoc] at hnext
    rw [List.map_cons, requestAll, List.foldl_cons, hlink]
    exact hnext

/-- A batch is quiet pushes and one notification. -/
theorem batch_eq (c : Channel α) (i : Nat) (items : List α) :
    (c.batch i items).2.2 =
      c.requestAll (items.map (fun item ↦ (i, .pushQuietly item)) ++ [(i, .notify)]) := by
  have hfold (direct : List Bool) : (items.foldl (fun s item ↦
      (s.1 ++ [(pushQuietly s.2 i item).1], (pushQuietly s.2 i item).2)) (direct, c)).2 =
      c.requestAll (items.map fun item ↦ (i, .pushQuietly item)) := by
    induction items generalizing c direct with
    | nil => rfl
    | cons item items ih => exact ih _ _
  rw [requestAll_append, ← hfold []]
  rfl

/-- Whoever wakes the consumer has all records handled. -/
theorem isEmpty_notify (hc : c.conduct = some .free) (h : c.link.Dozing start n) (i : Nat) :
    (c.notify i).2.link.ring.isEmpty = true := by
  show (c.request i .notify).2.link.ring.isEmpty = true
  rw [request_of_free hc]
  exact (h.calm.request_of_rouses i fun _ ↦ rfl).2

section Attended

variable {ring : Ring α} {wake room : Signal} {policy : IdlePolicy}

/-- The consumer of a channel that has just been made dozes, whatever it is asked for. -/
theorem dozing_attended (hempty : ring.isEmpty = true) (hwake : wake.isOpen = true)
    (hroom : room.isOpen = true) (hgives : policy.waiter.givesUp = true)
    (rs : List (Nat × Request α)) :
    ((attended ring wake room policy).requestAll rs).conduct = some .free ∧
      ((attended ring wake room policy).requestAll rs).link.Dozing ring.control.tail
        (Request.allItems rs).length := by
  have hstarted : (attended ring wake room policy).link.Dozing ring.control.tail 0 := by
    rw [attended_eq]
    exact Link.dozing_start hempty hwake hroom hgives
  rw [← Nat.zero_add (Request.allItems rs).length]
  exact dozing_requestAll (by rw [attended_eq]) hstarted rs

/-- If none wait, the link is cleared and all records that were sent were handed over in their
order. -/
theorem cleared_requestAll (hempty : ring.isEmpty = true) (hwake : wake.isOpen = true)
    (hroom : room.isOpen = true) (hgives : policy.waiter.givesUp = true)
    (rs more : List (Nat × Request α)) {sent : List α}
    (hsent : Request.allItems (rs ++ more) = sent)
    (he :
      (((attended ring wake room policy).requestAll rs).requestAll more).link.ring.isEmpty = true) :
    let c := ((attended ring wake room policy).requestAll rs).requestAll more
    c.link.Cleared (ring.control.tail + UInt64.ofNat sent.length) ∧
      (ring.Lasts sent.length → c.link.handled.toList = sent) := by
  intro c
  have hc : (attended ring wake room policy).requestAll (rs ++ more) = c := List.foldl_append
  have hdozing := (dozing_attended hempty hwake hroom hgives (rs ++ more)).2
  have hattending := (attending_requestAll hempty hwake hroom policy (rs ++ more)).2
  rw [hc] at hdozing hattending
  subst hsent
  refine ⟨hdozing.cleared he, fun hlasts ↦ ?_⟩
  have hall := hdozing.calm.handled_append (hattending.serving.placed.conveys_all hlasts)
  rwa [hdozing.calm.waiting_eq_nil he, List.append_nil] at hall

/-- **A batch comes to the same as its records sent one by one.** Requests are made one after the
other of a link whose consumer blocks when it has nothing to take. Whoever then wakes the consumer
has the ring and the overflow emptied, the flags cleared and all records handed over that were sent,
in their order, if the slots stay in turn. So if nothing waits and the same records are sent, in a
batch of any length or one by one, the flags and the counters end up the same, and so does what was
handed over. -/
theorem batch_eq_requestAll (hempty : ring.isEmpty = true) (hwake : wake.isOpen = true)
    (hroom : room.isOpen = true) (hgives : policy.waiter.givesUp = true)
    (rs : List (Nat × Request α)) (i : Nat) :
    let c := (attended ring wake room policy).requestAll rs
    let sent := Request.allItems rs
    let woken := (c.notify i).2
    (woken.link.Cleared (ring.control.tail + UInt64.ofNat sent.length) ∧
      (ring.Lasts sent.length → woken.link.handled.toList = sent)) ∧
    (c.link.ring.isEmpty = true → ∀ items : List α,
      let batch := (c.batch i items).2.2
      let single := c.requestAll (items.map fun item ↦ (i, .push item))
      let counter := ring.control.tail + UInt64.ofNat (sent.length + items.length)
      batch.link.Cleared counter ∧ single.link.Cleared counter ∧
      single.link.handled.toList = c.link.handled.toList ++ items ∧
      (ring.Lasts (sent.length + items.length) → batch.link.handled = single.link.handled)) := by
  intro c sent woken
  obtain ⟨hconduct, hdozing⟩ := dozing_attended hempty hwake hroom hgives rs
  have hwoken : Request.allItems (rs ++ [(i, .notify)]) = sent :=
    (Request.allItems_append ..).trans (List.append_nil sent)
  refine ⟨cleared_requestAll hempty hwake hroom hgives rs _ hwoken
    (isEmpty_notify hconduct hdozing i), fun he items ↦ ?_⟩
  intro batch single counter
  -- the same records are sent either way
  let quietly : List (Nat × Request α) := items.map fun item ↦ (i, .pushQuietly item)
  let aloud : List (Nat × Request α) := items.map fun item ↦ (i, .push item)
  have hquietly : Request.allItems (rs ++ (quietly ++ [(i, .notify)])) = sent ++ items := by
    rw [Request.allItems_append, Request.allItems_append, Request.allItems_map _ fun _ ↦ rfl]
    exact congrArg (sent ++ ·) (List.append_nil items)
  have haloud : Request.allItems (rs ++ aloud) = sent ++ items := by
    rw [Request.allItems_append, Request.allItems_map _ fun _ ↦ rfl]
  have hbatch : batch = c.requestAll (quietly ++ [(i, .notify)]) := batch_eq c i items
  obtain ⟨hquiet, hdozing'⟩ := dozing_requestAll hconduct hdozing quietly
  have hempty' : batch.link.ring.isEmpty = true := by
    rw [hbatch, requestAll_append]
    exact isEmpty_notify hquiet hdozing' i
  obtain ⟨hsingle, hhandled⟩ := handled_pushEach hconduct hdozing.calm he i items
  obtain ⟨hbatched, hinorder⟩ := cleared_requestAll hempty hwake hroom hgives rs _ hquietly
    (hbatch ▸ hempty')
  obtain ⟨hpushed, hinorder'⟩ := cleared_requestAll hempty hwake hroom hgives rs aloud
    haloud hsingle
  rw [List.length_append] at hbatched hinorder hpushed hinorder'
  refine ⟨hbatch ▸ hbatched, hpushed, hhandled, fun hlasts ↦ Array.toList_inj.1 ?_⟩
  rw [hbatch]
  exact (hinorder hlasts).trans (hinorder' hlasts).symm

end Attended

/-- After two records, five pass a ring for two, of which the last three are parked first. -/
theorem batch_eq_requestAll_fiveThroughTwo :
    ((Ring.blank 2 (by decide) : Ring Nat).isEmpty = true ∧ Signal.quiet.isOpen = true ∧
      IdlePolicy.yield.waiter.givesUp = true) ∧
    ∃ c, c = (attended (Ring.blank 2 (by decide) : Ring Nat) .quiet .quiet .yield).requestAll
        [(0, .push 1), (1, .pushAwaited 2 0)] ∧
      c.link.ring.isEmpty = true ∧ (c.batch 0 [3, 4, 5, 6, 7]).1 =
        [true, true, false, false, false] ∧
      (c.batch 0 [3, 4, 5, 6, 7]).2.2.link.Cleared (0 + UInt64.ofNat (2 + 5)) ∧
      (c.batch 0 [3, 4, 5, 6, 7]).2.2.link.handled =
        (c.requestAll ([3, 4, 5, 6, 7].map fun item ↦ (0, .push item))).link.handled := by
  have hempty : (Ring.blank 2 (by decide) : Ring Nat).isEmpty = true := rfl
  have hquiet : Signal.quiet.isOpen = true := rfl
  have hgives : IdlePolicy.yield.waiter.givesUp = true := rfl
  obtain ⟨-, hmore⟩ := batch_eq_requestAll hempty hquiet hquiet hgives
    [(0, .push 1), (1, .pushAwaited 2 0)] 0
  have hpassed : ((attended (Ring.blank 2 (by decide) : Ring Nat) .quiet .quiet .yield).requestAll
      [(0, .push 1), (1, .pushAwaited 2 0)]).link.ring.isEmpty = true := by decide +kernel
  obtain ⟨hbatch, -, -, hsame⟩ := hmore hpassed [3, 4, 5, 6, 7]
  exact ⟨⟨hempty, hquiet, hgives⟩, _, rfl, hpassed, by decide +kernel, hbatch,
    hsame (.inl (by decide))⟩

/-- The second of two records in a batch is handed over twice where the slots get out of turn, and
each once if they are sent one by one. So it is if the consumer is blocked before the batch, and if
it waits for its handler's permits in the meantime. -/
theorem batch_ne_requestAll :
    let ring (counter : UInt64) : Ring Nat :=
      ⟨3, { head := counter, tail := counter }, fun _ ↦ 0, by decide⟩
    let held : Conduct Nat :=
      { permits := some 0, quitAt := none, panicAt := none, isGuarded := true }
    let c := attended (ring 18446744073709551615) .quiet .quiet .yield
    let d := ((ofRing (ring 18446744073709551614) .quiet .quiet).start .yield held).push 0 7 |>.2
    (c.link.ring.isEmpty = true ∧ (c.batch 0 [1, 2]).2.2.link.handled = #[2, 2] ∧
      (c.requestAll [(0, .push 1), (0, .push 2)]).link.handled = #[1, 2]) ∧
    d.link.ring.isEmpty = true ∧ ((d.batch 0 [1, 2]).2.2.permit 10).link.handled = #[7, 2, 2] := by
  decide +kernel

end Channel

end RingCall
