import Mathlib.Data.List.Induction
import RingCall.Proofs.Link.Order

/-!
# What a consumer is handed

What a consumer has been handed after requests that were made one after the other, each once all
threads had settled (`Channel.handled_requestAll`). `backlog` says which records still wait: the
consumer blocks when there is nothing to take, and a record that is sent quietly waits until the
consumer is woken.

**A record that finds no room wakes nobody.** It is parked, and waits together with those that fill
the ring: the drain thread waits for room, which only the consumer can make, and the consumer waits
to be woken. So a request that is to wake the consumer has all records handed over only if fewer
records wait than the ring can hold.

How many records are handed over and how many wait does not depend on the counters. That they are
those that were sent, in their order, needs slots that stay in turn (`Ring.Lasts`). Where neither of
these two conditions is met, records are kept back or are handed over twice
(`Channel.handled_requestAll_fails`).
-/

namespace RingCall

variable {α : Type}

/-! ### One request after the other -/

/-- The records that wait after a request, when those in `waiting` waited before and the consumer
was blocked. -/
def Request.leave (capacity : Nat) (waiting : List α) (r : Request α) : List α :=
  match r.sent? with
  | none => []
  | some (record, wakes) =>
    if wakes && waiting.length < capacity then [] else waiting ++ [record.item]

/-- How many records wait then depends on how many waited before. -/
theorem Request.length_leave {capacity : Nat} {waiting waiting' : List α}
    (h : waiting.length = waiting'.length) (r : Request α) :
    (r.leave capacity waiting).length = (r.leave capacity waiting').length := by
  rw [leave, leave]
  cases r.sent? with
  | none => rfl
  | some sent =>
    simp only [h]
    split
    · rfl
    · rw [List.length_append, List.length_append, h]

/-- The records that wait after requests, if the consumer blocks whenever it has nothing to take. -/
def backlog (capacity : Nat) (rs : List (Request α)) :
    List α := rs.foldl (Request.leave capacity) []

/-- The backlog of requests is what the last one leaves of the backlog before it. -/
theorem backlog_append (capacity : Nat) (rs : List (Request α)) (r : Request α) :
    backlog capacity (rs ++ [r]) = r.leave capacity (backlog capacity rs) := by
  rw [backlog, List.foldl_append]
  rfl

/-- The records that wait are the last ones that were sent. -/
theorem backlog_suffix (capacity : Nat) (rs : List (Request α)) :
    backlog capacity rs <:+ rs.flatMap Request.items := by
  induction rs using List.reverseRecOn with
  | nil => exact List.suffix_rfl
  | append_singleton rs r ih =>
    have hitems : (rs ++ [r]).flatMap Request.items = rs.flatMap Request.items ++ r.items := by simp
    rw [backlog_append, hitems, Request.leave, Request.items]
    cases hr : r.sent? with
    | none => exact List.nil_suffix
    | some sent =>
      simp only
      split
      · exact List.nil_suffix
      · obtain ⟨before, hbefore⟩ := ih
        exact ⟨before, by rw [← List.append_assoc, hbefore]; rfl⟩

namespace Link

variable {l l' : Link α}

/-- The records in the ring and those that are parked. -/
def waiting (l : Link α) : List α := l.ring.contents ++ l.overflow.map (·.item)

/-- Nothing is parked while there is room. -/
theorem Calm.waiting_eq (h : l.Calm) :
    l.ring.contents = l.waiting.take l.ring.capacity.toNat ∧
      l.overflow.map (·.item) = l.waiting.drop l.ring.capacity.toNat := by
  have hlength := l.ring.length_contents
  by_cases hnil : l.overflow = []
  · have hle := UInt64.le_iff_toNat_le.1 h.steady.undisturbed.len_le
    simp only [waiting, hnil, List.map_nil, List.append_nil]
    exact ⟨(List.take_of_length_le (by omega)).symm, (List.drop_eq_nil_of_le (by omega)).symm⟩
  · have hfull := Ring.isFull_iff.1 (h.graded.1 hnil).1
    rw [hfull] at hlength
    rw [waiting]
    exact ⟨(List.take_left' hlength).symm, (List.drop_left' hlength).symm⟩

/-- No record waits in a calm link with an empty ring. -/
theorem Calm.waiting_eq_nil (h : l.Calm) (he : l.ring.isEmpty = true) : l.waiting = [] := by
  rw [waiting, Ring.contents_eq_nil_iff.2 he, h.overflow_eq_nil he]
  rfl

/-- Records wait unless the request rouses the consumer, which it does if fewer of them wait than
the ring can hold. -/
theorem Calm.leave_eq (h : l.Calm) (r : Request α) :
    r.leave l.ring.capacity.toNat l.waiting = if l.rouses r then [] else l.waiting ++ r.items := by
  rw [Request.leave, rouses, Request.items]
  cases hr : r.sent? with
  | none => simp
  | some sent =>
    obtain ⟨record, wakes⟩ := sent
    have hroom : l.waiting.length < l.ring.capacity.toNat ↔
        (l.store? record.item).isSome = true := by
      rw [isSome_store?_iff h.steady.undisturbed.len_le, UInt64.lt_iff_toNat_lt, waiting,
        List.length_append, List.length_map, Ring.length_contents]
      by_cases hnil : l.overflow = []
      · simp [hnil]
      · have hfull := Ring.isFull_iff.1 (h.graded.1 hnil).1
        simp [hnil, hfull]
    cases wakes <;> simp [hroom]

/-- A consumer that has settled carries no record. -/
theorem Calm.carried_eq (h : l.Calm) : l.reader.carried = [] := by
  obtain ⟨w, ⟨hr, -⟩ | ⟨hr, -⟩⟩ := h.steady.running.of_still h.still <;> rw [hr] <;> rfl

/-- What was handed over and what waits is what was sent. -/
theorem Calm.handled_append (h : l.Calm) {sent : List α} (hc : l.Conveys sent) :
    l.handled.toList ++ l.waiting = sent := by
  have hkept := hc.kept
  rw [h.carried_eq, List.append_nil, List.append_assoc] at hkept
  exact hkept

/-- What is sent is handed over or waits. -/
theorem Calm.size_handled (h : l.Calm) {ring : Ring α} {sent : List α}
    (hp : Placed ring sent [] l) : l.handled.size + l.waiting.length = sent.length := by
  have hlength := hp.length_eq
  rw [l.length_entered, h.carried_eq] at hlength
  rw [waiting, List.length_append, List.length_map, Ring.length_contents, ← Nat.add_assoc]
  exact hlength

/-- What holds while a link settles that a consumer reads, and to which the records in `sent` were
sent. -/
structure Serving (ring : Ring α) (policy : IdlePolicy) (sent : List α) (l : Link α) : Prop where
  steady : l.Steady
  placed : Placed ring sent [] l
  idles : if policy.waiter.givesUp then l.Tires else l.Tireless

/-- The consumer serves the records that were sent, whatever thread takes a step. -/
theorem Serving.advance {ring : Ring α} {policy : IdlePolicy} {sent : List α}
    (h : Serving ring policy sent l) (hstep : Advance l l') : Serving ring policy sent l' where
  steady := h.steady.advance hstep
  placed := h.placed.advance h.steady.running.staying hstep
  idles := by
    have hidles := h.idles
    split at hidles
    · next hg => rw [if_pos hg]; exact hidles.advance h.steady.running hstep
    · next hg => rw [if_neg hg]; exact hidles.advance h.steady.running hstep

/-- What holds of a link between requests, after those in `rs`. -/
structure Attending (ring : Ring α) (policy : IdlePolicy) (rs : List (Request α)) (l : Link α) :
    Prop where
  calm : l.Calm
  serving : Serving ring policy (rs.flatMap Request.items) l
  pending_eq : l.waiting.length =
    if policy.waiter.givesUp then (backlog ring.capacity.toNat rs).length else 0

namespace Attending

variable {ring : Ring α} {policy : IdlePolicy} {rs : List (Request α)}

/-- As many records wait as would if the link had room for records of any kind. -/
theorem length_leave (h : Attending ring policy rs l) (hg : policy.waiter.givesUp = true)
    (r : Request α) : (backlog ring.capacity.toNat (rs ++ [r])).length =
      (if l.rouses r then [] else l.waiting ++ r.items).length := by
  have hpending := h.pending_eq
  rw [if_pos hg] at hpending
  rw [← h.calm.leave_eq, h.serving.placed.capacity_eq, backlog_append]
  exact r.length_leave hpending.symm

/-- The consumer attends to a request like to those before. -/
theorem request (h : Attending ring policy rs l) (i : Nat) (r : Request α) :
    Attending ring policy (rs ++ [r]) (l.request i r).2.settle := by
  have hsent : (rs ++ [r]).flatMap Request.items = rs.flatMap Request.items ++ r.items := by simp
  have hrequest := request_eq h.calm.atRest.holder_eq i r
  have hserving : Serving ring policy ((rs ++ [r]).flatMap Request.items) (l.request i r).2 := by
    refine ⟨h.calm.steady_request i r, ?_, ?_⟩
    · rw [hrequest, hsent]
      exact (h.serving.placed.fulfil r).congr (.refl _) rfl rfl rfl
    · have hidles := h.serving.idles
      simp only [Tires, Tireless] at hidles ⊢
      rw [reader_request]
      exact hidles
  have hsettled : Serving ring policy ((rs ++ [r]).flatMap Request.items)
      (l.request i r).2.settle :=
    settle_preserves (fun _ _ hstep hm ↦ hm.advance hstep) hserving
  have hidles := h.serving.idles
  by_cases hroused : l.reader.isBlocked = true → l.rouses r = true
  · obtain ⟨hcalm, hempty⟩ := h.calm.request_of_rouses i hroused
    refine ⟨hcalm, hsettled, ?_⟩
    rw [hcalm.waiting_eq_nil hempty]
    split
    · next hg =>
      rw [if_pos hg] at hidles
      rw [h.length_leave hg, if_pos (hroused (h.calm.isBlocked_of_tires hidles))]
    · rfl
  · rw [Classical.not_imp, Bool.not_eq_true] at hroused
    obtain ⟨hb, hr⟩ := hroused
    obtain ⟨hstays, hcalm⟩ := h.calm.request_of_not_rouses i hb hr
    rw [hstays] at hsettled ⊢
    refine ⟨hcalm, hsettled, ?_⟩
    have hg : policy.waiter.givesUp = true := by
      by_contra hg
      rw [if_neg hg] at hidles
      rw [h.calm.isBlocked_of_tireless hidles] at hb
      cases hb
    -- what was handed over stays the same, so that the record joins those that wait
    have hbefore := h.calm.size_handled h.serving.placed
    have hafter := hcalm.size_handled hserving.placed
    have hhandled : (l.request i r).2.handled = l.handled := by
      rw [hrequest]
      exact handled_fulfil l r
    rw [hhandled, hsent, List.length_append] at hafter
    rw [if_pos hg, h.length_leave hg, hr, if_neg Bool.false_ne_true, List.length_append]
    omega

/-- The records that wait, as long as the slots stay in turn. -/
theorem waiting_eq (h : Attending ring policy rs l)
    (hlasts : ring.Lasts (rs.flatMap Request.items).length) :
    l.waiting = if policy.waiter.givesUp then backlog ring.capacity.toNat rs else [] := by
  have hpending := h.pending_eq
  have hsuffix : l.waiting <:+ rs.flatMap Request.items :=
    ⟨_, h.calm.handled_append (h.serving.placed.conveys_all hlasts)⟩
  split
  · next hg =>
    rw [if_pos hg] at hpending
    exact (List.suffix_of_suffix_length_le hsuffix (backlog_suffix _ rs) hpending.le).eq_of_length
      hpending
  · next hg =>
    rw [if_neg hg] at hpending
    exact List.eq_nil_of_length_eq_zero hpending

end Attending

/-! ### Starting -/

/-- What holds while a link settles that was opened on an empty ring and that nobody reads. -/
structure Unread (ring : Ring α) (l : Link α) : Prop where
  reader_eq : l.reader = .away
  undisturbed : l.Undisturbed
  serviced : l.Serviced
  tended : l.Tended
  wake : l.wake.isOpen = true
  idle : ∀ i, (l.producers i).isIdle = true
  placed : Placed ring [] [] l

/-- Nothing has been read before the first request. -/
theorem unread_opened {ring : Ring α} {wake room : Signal} (hempty : ring.isEmpty = true)
    (hwake : wake.isOpen = true) (hroom : room.isOpen = true) :
    (opened ring wake room).Unread ring := by
  have hlen := Ring.isEmpty_iff.1 hempty
  have htail : ring.control.tail = ring.control.head := by rw [Ring.tail_eq, hlen, UInt64.add_zero]
  have hle : ring.len ≤ ring.capacity := by
    rw [hlen, UInt64.le_iff_toNat_le]
    exact Nat.zero_le _
  have hentered : (opened ring wake room).entered = [] := by
    simp [opened, entered, Reader.carried, Ring.contents_eq_nil_iff.2 hempty]
  refine ⟨rfl, ⟨locked_opened ring wake room, fun _ ↦ rfl, hle, ?_, ?_⟩, ⟨rfl, ?_, hroom⟩,
    tended_opened ring wake room, hwake, fun _ ↦ rfl, hle, rfl, ?_, ?_, fun _ ↦ ⟨[], ?_, rfl⟩⟩
  · exact fun hthrough ↦ absurd hthrough Bool.false_ne_true
  · exact fun hchecking ↦ Drain.noConfusion hchecking
  · exact fun hended ↦ Drain.noConfusion hended
  · simp [opened, reach, hlen, htail]
  · rw [hentered]
    rfl
  · exact ⟨congrArg (· ++ []) hentered, .inl rfl⟩

/-- Only the drain thread can go on while nobody reads. -/
theorem Advance.drainStep_of_away (h : Advance l l') (hr : l.reader = .away) : DrainStep l l' := by
  cases h with
  | drain h => exact h
  | read _ _ h => cases h <;> simp_all
  | giveUp _ hl => rw [hr] at hl; cases hl
  | handle _ hh =>
    obtain ⟨_, _, _, _, hl, -⟩ := handle_eq_some_of_returns hh
    rw [hr] at hl
    cases hl

/-- Nothing is read while nobody reads. -/
theorem Unread.advance {ring : Ring α} (h : l.Unread ring) (hstep : Advance l l') :
    l'.Unread ring := by
  have hdrain := hstep.drainStep_of_away h.reader_eq
  exact ⟨hdrain.reader_eq.trans h.reader_eq, h.undisturbed.advance hstep, h.serviced.advance hstep,
    h.tended.advance hstep, hdrain.isOpen_wake.trans h.wake,
    fun i ↦ hdrain.producers_eq ▸ h.idle i, h.placed.drainStep hdrain⟩

/-- A consumer that is started on a link without records settles, and none wait. -/
theorem Unread.start {ring : Ring α} (h : l.Unread ring) (policy : IdlePolicy) :
    Attending ring policy [] (l.start policy).settle := by
  have htended : (l.start policy).Tended :=
    h.tended.of_reader rfl rfl rfl rfl rfl rfl rfl
      (by rw [h.reader_eq]; exact fun hnudging ↦ absurd hnudging Bool.false_ne_true)
      (by rw [h.reader_eq]; exact fun hreleasing ↦ absurd hreleasing Bool.false_ne_true)
  have hsteady : (l.start policy).Steady :=
    ⟨⟨htended.locked, h.undisturbed.outside, h.undisturbed.len_le, h.undisturbed.through,
      h.undisturbed.checking⟩,
      ⟨⟨h.serviced.closing, h.serviced.drain_ne, h.serviced.room⟩, h.wake, rfl, rfl⟩,
      htended, h.idle⟩
  -- a policy that never gives up is one that sleeps for no time
  have hidles : if policy.waiter.givesUp then (l.start policy).Tires
      else (l.start policy).Tireless := by
    split
    · next hg => exact ⟨_, _, rfl, hg⟩
    · next hg =>
      cases policy with
      | yield | spin => exact absurd rfl hg
      | sleep interval max =>
        have hzero : interval = 0 := by simpa [IdlePolicy.waiter, Waiter.givesUp] using hg
        subst hzero
        exact ⟨_, _, rfl, rfl⟩
  have hplaced : Placed ring [] [] (l.start policy) := by
    refine h.placed.of_entered rfl rfl h.placed.len_le (Nat.le_refl _) ?_
    rw [entered, entered, h.reader_eq]
    rfl
  have hserving : Serving ring policy [] (l.start policy) := ⟨hsteady, hplaced, hidles⟩
  have hloud : ∀ i, (l.producers i).isQuiet = false := fun i ↦ (Producer.of_isIdle (h.idle i)).1
  have hattended : (l.start policy).Attended :=
    ⟨hloud, fun hlistening ↦ absurd hlistening Bool.false_ne_true,
      fun hblocked ↦ absurd hblocked Bool.false_ne_true⟩
  obtain ⟨hcalm, hempty⟩ := hsteady.settle hattended
  refine ⟨hcalm, settle_preserves (fun _ _ hstep hm ↦ hm.advance hstep) hserving, ?_⟩
  rw [hcalm.waiting_eq_nil hempty]
  split <;> rfl

/-- A link on an empty ring, of which a consumer is started. -/
theorem attending_start {ring : Ring α} {wake room : Signal} (hempty : ring.isEmpty = true)
    (hwake : wake.isOpen = true) (hroom : room.isOpen = true) (policy : IdlePolicy) :
    Attending ring policy [] ((opened ring wake room).settle.start policy).settle :=
  (settle_preserves (P := Unread ring) (fun _ _ hstep hm ↦ hm.advance hstep)
    (unread_opened hempty hwake hroom)).start policy

end Link

/-! ### Settled runs -/

namespace Channel

variable [DecidableEq α]

/-- Makes requests, each of a writer, one after the other. -/
def requestAll (c : Channel α) (rs : List (Nat × Request α)) : Channel α :=
  rs.foldl (fun c r ↦ (c.request r.1 r.2).2) c

/-- One request after the other. -/
theorem requestAll_append (c : Channel α) (rs : List (Nat × Request α)) (i : Nat) (r : Request α) :
    c.requestAll (rs ++ [(i, r)]) = ((c.requestAll rs).request i r).2 := by
  rw [requestAll, List.foldl_append]
  rfl

/-- A channel whose consumer handles every record. -/
def attended (ring : Ring α) (wake room : Signal) (policy : IdlePolicy) : Channel α :=
  (ofRing ring wake room).start policy .free

/-- What a channel consists of when its consumer has just been started. -/
theorem attended_eq (ring : Ring α) (wake room : Signal) (policy : IdlePolicy) :
    attended ring wake room policy =
      ⟨((Link.opened ring wake room).settle.start policy).settle, [0], 1, 0, some .free⟩ := by
  have hopened : ofRing ring wake room =
      ⟨(Link.opened ring wake room).settle, [0], 1, 0, none⟩ := settle_of_isIdle rfl rfl
  rw [attended, hopened]
  exact settle_of_free rfl

/-- A request to a channel whose handler handles every record is one to its link. -/
theorem request_of_free {c : Channel α} (hc : c.conduct = some .free) (i : Nat) (r : Request α) :
    (c.request i r).2 = { c with link := (c.link.request i r).2.settle } :=
  settle_of_free hc

/-- The consumer attends to all requests, one after the other. -/
theorem attending_requestAll {ring : Ring α} {wake room : Signal} (hempty : ring.isEmpty = true)
    (hwake : wake.isOpen = true) (hroom : room.isOpen = true) (policy : IdlePolicy)
    (rs : List (Nat × Request α)) :
    ((attended ring wake room policy).requestAll rs).conduct = some .free ∧
    Link.Attending ring policy (rs.map (·.2))
      ((attended ring wake room policy).requestAll rs).link := by
  induction rs using List.reverseRecOn with
  | nil =>
    rw [requestAll, List.foldl_nil, attended_eq]
    exact ⟨rfl, Link.attending_start hempty hwake hroom policy⟩
  | append_singleton rs r ih =>
    obtain ⟨i, r⟩ := r
    obtain ⟨hconduct, hattending⟩ := ih
    rw [List.map_append, requestAll_append, request_of_free hconduct]
    exact ⟨hconduct, hattending.request i r⟩

/-- **What a consumer is handed.** Requests are made one after the other, and the last one is to
send a record and wake the consumer. The records that were handed over and those that wait are as
many as were sent. The ring has those that fit of the latter, and the others are parked. None wait
exactly if the consumer never blocks, or if before the last request fewer records waited than the
ring can hold. If the slots stay in turn they are the records that were sent, in this order. -/
theorem handled_requestAll {ring : Ring α} {wake room : Signal} (hempty : ring.isEmpty = true)
    (hwake : wake.isOpen = true) (hroom : room.isOpen = true) (policy : IdlePolicy)
    (rs : List (Nat × Request α)) (i : Nat) {r : Request α} {record : Parked α}
    (hr : r.sent? = some (record, true)) :
    let c := (attended ring wake room policy).requestAll (rs ++ [(i, r)])
    let capacity := ring.capacity.toNat
    let sent := (rs.map (·.2) ++ [r]).flatMap Request.items
    let waiting :=
      if policy.waiter.givesUp then backlog capacity (rs.map (·.2) ++ [r]) else []
    (c.link.handled.size + waiting.length = sent.length ∧
      c.link.ring.len.toNat = min waiting.length capacity ∧
      c.link.overflow.length = waiting.length - capacity) ∧
    (waiting = [] ↔ (policy.waiter.givesUp = true →
      (backlog capacity (rs.map (·.2))).length < capacity)) ∧
    (ring.Lasts sent.length → c.link.handled.toList ++ waiting = sent ∧
      c.link.ring.contents = waiting.take capacity ∧
      c.link.overflow.map (·.item) = waiting.drop capacity) := by
  intro c capacity sent waiting
  obtain ⟨-, hattending⟩ := attending_requestAll hempty hwake hroom policy (rs ++ [(i, r)])
  rw [List.map_append, List.map_singleton] at hattending
  have hcalm := hattending.calm
  have hsplit := hcalm.waiting_eq
  rw [hattending.serving.placed.capacity_eq] at hsplit
  have hpending : c.link.waiting.length = waiting.length := by
    rw [hattending.pending_eq]
    exact (apply_ite List.length (policy.waiter.givesUp = true) _ []).symm
  refine ⟨⟨?_, ?_, ?_⟩, ?_, fun hlasts ↦ ?_⟩
  · rw [← hpending]
    exact hcalm.size_handled hattending.serving.placed
  · rw [← Ring.length_contents, hsplit.1, List.length_take, hpending, Nat.min_comm]
  · have hover := congrArg List.length hsplit.2
    rwa [List.length_map, List.length_drop, hpending] at hover
  · show (if policy.waiter.givesUp then _ else _) = [] ↔ _
    -- the last request wakes the consumer, unless it finds the ring full
    rw [backlog_append, Request.leave, hr]
    cases policy.waiter.givesUp <;> simp [capacity]
  · have hwaiting : c.link.waiting = waiting := hattending.waiting_eq hlasts
    rw [← hwaiting]
    exact ⟨hcalm.handled_append (hattending.serving.placed.conveys_all hlasts), hsplit⟩

/-- Two records fit into a ring for two, and the second one has both handed over. -/
theorem handled_requestAll_roomForTwo :
    (Ring.blank 2 (by decide) : Ring Nat).isEmpty = true ∧ Signal.quiet.isOpen = true ∧
    (Request.push 2).sent? = some (⟨2, none⟩, true) ∧
    let c := (attended (Ring.blank 2 (by decide)) .quiet .quiet .yield).requestAll
      ([(0, .pushQuietly 1)] ++ [(1, .push 2)])
    c.link.handled.toList ++ [] = [1, 2] ∧ c.link.ring.contents = [] ∧
      c.link.overflow.map (·.item) = [] := by
  have hempty : (Ring.blank 2 (by decide) : Ring Nat).isEmpty = true := rfl
  have hquiet : Signal.quiet.isOpen = true := rfl
  have hsent : (Request.push 2).sent? = some (⟨2, none⟩, true) := rfl
  obtain ⟨-, -, hinorder⟩ :=
    handled_requestAll hempty hquiet hquiet .yield [(0, .pushQuietly 1)] 1 hsent
  exact ⟨hempty, hquiet, hsent, hinorder (.inl (by decide))⟩

/-- The consumer is to wait for its handler's permits, and two records are sent in a batch
meanwhile, and another one alone. The second record of the batch is stored over the first one, and
handed over twice. And a record that does not fit beside another one wakes no consumer, so that
neither is handed over. -/
theorem handled_requestAll_fails :
    let control : Control := { head := 18446744073709551614, tail := 18446744073709551614 }
    let ring : Ring Nat := ⟨3, control, fun _ ↦ 0, by decide⟩
    let held : Conduct Nat :=
      { permits := some 0, quitAt := none, panicAt := none, isGuarded := true }
    let c := ((ofRing ring .quiet .quiet).start .yield held).push 0 7 |>.2
    let d := (attended (Ring.blank 1 (by decide) : Ring Nat) .quiet .quiet .yield).requestAll
      [(0, .pushQuietly 1), (1, .push 2)]
    ((((c.batch 0 [1, 2]).2.2.push 0 3).2.permit 10).link.handled = #[7, 2, 2, 3]) ∧
      d.link.handled = #[] ∧ d.link.ring.contents = [1] ∧ d.link.overflow.map (·.item) = [2] ∧
      d.link.advanceFreely.isNone = true := by
  decide +kernel

end Channel

end RingCall
