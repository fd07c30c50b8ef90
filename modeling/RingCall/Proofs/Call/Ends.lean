import RingCall.Call.Session
import RingCall.Proofs.Call.Schedule
import RingCall.Proofs.Call.Turn
import RingCall.Proofs.Slab.Reuse

/-!
# The two ends of a call

What becomes of the two ends of a session while one calls the other. Before and after a call no
record is under way at either, and each worker waits or runs another call (`Party.Poised`).

1. The caller takes a ticket (`Party.opening`), and a worker of the peer takes the call
   (`Party.serving`).
2. The peer keeps the response and its worker waits again (`Party.replying`), and the caller gives
   the ticket back (`Party.hearing`).

So both have again what they had, but for the response (`Party.Resumes`). The other calls that an
end serves have their tickets all the time (`Party.AwaitedBy`), and a new ticket is none of theirs
(`AwaitedBy.not_mem`), so that a worker is known by the call that it runs.

`Session.Stands` says what a session consists of, as seen from one of its ends, and the lemmas about
it what a record changes, and what a step of a call.
-/

namespace RingCall

open Wire

/-- The reply to a call repeats the call's ticket. -/
theorem Endpoint.conclude_fst (e : Endpoint) (call : Record) (response : Option StoredReply) :
    (e.conclude call response).1.kind? = some .reply ∧
      (e.conclude call response).1.userData = call.userData := by
  cases response <;> exact ⟨rfl, rfl⟩

/-- Only the responses that are kept change with a reply. -/
theorem Endpoint.conclude_snd (e : Endpoint) (call : Record) (response : Option StoredReply) :
    (e.conclude call response).2.registry = e.registry ∧
      (e.conclude call response).2.pending = e.pending := by
  cases response <;> exact ⟨rfl, rfl⟩

/-- A response that is kept leaves room for handles if one was left for it. -/
theorem Endpoint.ready_conclude {e : Endpoint} (h : e.stored.Ready)
    (hhandles : e.stored.load.HasHandles) (call : Record) (response : Option StoredReply) :
    (e.conclude call response).2.stored.Ready := by
  cases response with
  | none => exact h
  | some reply => exact h.push hhandles reply

/-- No record is under way at an end, and its workers wait for calls or run them. -/
structure Party.Poised (p : Party) : Prop where
  schedule : p.schedule.Lawful
  inbound : p.inbound.Vacant
  pool : p.pool.Poised
  pending : p.endpoint.pending.Ready
  stored : p.endpoint.stored.Ready

/-- An end that has taken a ticket for a caller. -/
def Party.opening (p : Party) (caller : Nat) : Party :=
  { p with endpoint := (p.endpoint.openCall caller).2 }

/-- An end one of whose workers has taken a call that came in. -/
def Party.serving (p : Party) (inbound : Link Record) (i : Nat) (call : Record) : Party :=
  { p with inbound, pool := p.pool.setWorker i (.running call false) }

/-- An end that has replied to a call, with a response that it keeps, if there is one. -/
def Party.replying (p : Party) (i : Nat) (call : Record) (response : Option StoredReply) : Party :=
  { p with
    endpoint := (p.endpoint.conclude call response).2
    pool := { p.pool with finished := p.pool.finished ++ [call] }.setWorker i .waiting }

/-- An end that has got the reply with a ticket. -/
def Party.hearing (p : Party) (inbound : Link Record) (ticket : UInt64) : Party :=
  { p with
    inbound
    endpoint := { p.endpoint with pending := (p.endpoint.pending.pop ticket).2 } }

/-- The calls that an end serves await their reply at the peer. -/
def Party.AwaitedBy (p peer : Party) : Prop :=
  ∀ call ∈ p.pool.inHand, (peer.endpoint.pending.get? call.userData).isSome = true

/-- An end has again what it had, and some responses. -/
structure Party.Resumes (p p' : Party) (stored : ShardedSlab StoredReply) : Prop where
  poised : p'.Poised
  registry_eq : p'.endpoint.registry = p.endpoint.registry
  workers_eq : p'.pool.workers = p.pool.workers
  pending : p.endpoint.pending.Agrees p'.endpoint.pending
  stored : stored.Agrees p'.endpoint.stored

namespace Party

variable {p p' p'' peer peer' : Party} {stored stored' : ShardedSlab StoredReply}

/-- An end that nothing happens to has what it had. -/
theorem Poised.resumes (h : p.Poised) : p.Resumes p p.endpoint.stored :=
  ⟨h, rfl, rfl, .refl _, .refl _⟩

/-- What is had again after two steps is what was had before both. -/
theorem Resumes.trans (h : p.Resumes p' stored) (h' : p'.Resumes p'' stored') :
    p.Resumes p'' stored' where
  poised := h'.poised
  registry_eq := h'.registry_eq.trans h.registry_eq
  workers_eq := h'.workers_eq.trans h.workers_eq
  pending := h.pending.trans h'.pending
  stored := h'.stored

/-- Nothing is left of a ticket when the reply has come. -/
theorem Resumes.hearing (hp : p.Poised) {caller : Nat}
    (hready : (p.endpoint.pending.push caller).2.Ready)
    (h : (p.opening caller).Resumes p' p.endpoint.stored) :
    (p'.endpoint.pending.pop (p.endpoint.openCall caller).1).1 = some caller ∧
      ∀ inbound : Link Record, inbound.Vacant →
        p.Resumes (p'.hearing inbound (p.endpoint.openCall caller).1) p.endpoint.stored := by
  obtain ⟨hpop, hpending⟩ := ShardedSlab.Agrees.pop_push hp.pending.sound hready.fits h.pending
    h.poised.pending.sound
  refine ⟨hpop, fun inbound hinbound ↦ ⟨⟨h.poised.schedule, hinbound, h.poised.pool, ?_,
    h.poised.stored⟩, h.registry_eq, h.workers_eq, hpending, h.stored⟩⟩
  exact h.poised.pending.pop _

/-- The worker that has served a call waits as before. -/
theorem Resumes.replying (hhandles : p.endpoint.stored.load.HasHandles) {i : Nat}
    (hi : p.pool.workers[i]? = some .waiting) {inbound : Link Record} {call : Record}
    (h : (p.serving inbound i call).Resumes p' p.endpoint.stored)
    (response : Option StoredReply) :
    p.Resumes (p'.replying i call response) (p'.endpoint.conclude call response).2.stored := by
  obtain ⟨hregistry, hpending⟩ := p'.endpoint.conclude_snd call response
  have hworkers : (p'.replying i call response).pool.workers = p.pool.workers := by
    show p'.pool.workers.set i .waiting = _
    obtain ⟨hlt, hwaiting⟩ := List.getElem?_eq_some_iff.1 hi
    rw [h.workers_eq]
    show (p.pool.workers.set i _).set i .waiting = _
    rw [List.set_set, ← hwaiting, List.set_getElem_self]
  refine ⟨⟨h.poised.schedule, h.poised.inbound, (h.poised.pool.ended _).setWorker i (.inl rfl), ?_,
    Endpoint.ready_conclude h.poised.stored (h.stored.load_eq ▸ hhandles) call response⟩,
    hregistry.trans h.registry_eq, hworkers, hpending ▸ h.pending, .refl _⟩
  exact hpending ▸ h.poised.pending

/-- Another ticket changes nothing for the calls that await their reply. -/
theorem AwaitedBy.opening (h : p.AwaitedBy peer) (hsound : peer.endpoint.pending.Sound)
    {caller : Nat} (hfits : (peer.endpoint.pending.push caller).2.Fits) :
    p.AwaitedBy (peer.opening caller) := by
  intro call hcall
  have hget := ShardedSlab.get?_push hsound hfits call.userData
  refine (congrArg Option.isSome hget).trans ?_
  split
  · rfl
  · exact h call hcall

/-- A worker that takes a call with a live ticket keeps all calls awaited. -/
theorem AwaitedBy.serving (h : p.AwaitedBy peer) {i : Nat}
    (hi : p.pool.workers[i]? = some .waiting) {call : Record}
    (hcall : (peer.endpoint.pending.get? call.userData).isSome = true) (inbound : Link Record) :
    (p.serving inbound i call).AwaitedBy peer := by
  intro other hother
  have hhand := (Pool.perm_inHand_setWorker hi (.running call false)).mem_iff.1 hother
  rcases List.mem_cons.1 hhand with rfl | hhand
  · exact hcall
  · exact h other hhand

/-- A call with a new ticket is not being served yet. -/
theorem AwaitedBy.not_mem (h : p.AwaitedBy peer) (hsound : peer.endpoint.pending.Sound)
    {caller : Nat} (hfits : (peer.endpoint.pending.push caller).2.Fits) {call : Record}
    (hcall : call.userData = (peer.endpoint.openCall caller).1) : call ∉ p.pool.inHand := by
  intro hmem
  have hfree : peer.endpoint.pending.get? (peer.endpoint.openCall caller).1 = none :=
    ShardedSlab.get?_fst_push hsound hfits
  have hlive := h call hmem
  rw [hcall, hfree] at hlive
  cases hlive

/-- The calls that an end serves are awaited as long as both ends have again what they had. -/
theorem AwaitedBy.resumes (h : p.AwaitedBy peer) (hp : p.Resumes p' stored)
    (hpeer : peer.Resumes peer' stored') : p'.AwaitedBy peer' := by
  intro call hcall
  rw [Pool.inHand, hp.workers_eq] at hcall
  rw [hpeer.pending.get?_eq]
  exact h call hcall

end Party

/-- A reply with a handle is released by a drop that gives the handle back. -/
theorem ReplyView.drop?_of_ne {v : ReplyView} (h : v.handle ≠ 0) :
    v.drop? = some (.drop v.callId v.handle) :=
  if_neg (by rw [isEmpty, beq_iff_eq]; exact h)

/-- An empty reply leaves nothing to give back. -/
theorem ReplyView.drop?_of_eq {v : ReplyView} (h : v.handle = 0) : v.drop? = none :=
  if_pos (by rw [isEmpty, beq_iff_eq]; exact h)

namespace Session

variable {s t : Session} {side : Side} {here there : Party} {heap : Heap}
  {arrived : List (Nat × Record)}

@[simp] theorem party_setParty_self (s : Session) (side : Side) (p : Party) :
    (s.setParty side p).party side = p := by cases side <;> rfl

@[simp] theorem party_other_setParty (s : Session) (side : Side) (p : Party) :
    (s.setParty side p).party side.other = s.party side.other := by cases side <;> rfl

@[simp] theorem heap_setParty (s : Session) (side : Side) (p : Party) :
    (s.setParty side p).heap = s.heap := by cases side <;> rfl

@[simp] theorem arrived_setParty (s : Session) (side : Side) (p : Party) :
    (s.setParty side p).arrived = s.arrived := by cases side <;> rfl

@[simp] theorem party_withHeap (s : Session) (heap : Heap) (side : Side) :
    ({ s with heap } : Session).party side = s.party side := by cases side <;> rfl

/-- What a session consists of, as seen from one of its ends. -/
structure Stands (s : Session) (side : Side) (here there : Party) (heap : Heap)
    (arrived : List (Nat × Record)) : Prop where
  here_eq : s.party side = here
  there_eq : s.party side.other = there
  heap_eq : s.heap = heap
  arrived_eq : s.arrived = arrived

namespace Stands

/-- The same session is seen from the other end. -/
theorem symm (h : s.Stands side here there heap arrived) :
    s.Stands side.other there here heap arrived where
  here_eq := h.there_eq
  there_eq := by rw [Conversation.other_other, h.here_eq]
  heap_eq := h.heap_eq
  arrived_eq := h.arrived_eq

/-- What a session consists of besides its ends is replaced. -/
theorem congr (h : s.Stands side here there heap arrived) (s' : Session) (hleft : s'.left = s.left)
    (hright : s'.right = s.right) {heap' : Heap} (hheap : s'.heap = heap')
    {arrived' : List (Nat × Record)} (harrived : s'.arrived = arrived') :
    s'.Stands side here there heap' arrived' := by
  have hparty : ∀ side, s'.party side = s.party side := by
    rintro (- | -)
    · exact hleft
    · exact hright
  exact ⟨(hparty _).trans h.here_eq, (hparty _).trans h.there_eq, hheap, harrived⟩

/-- The end from which a session is seen is replaced. -/
theorem setParty (h : s.Stands side here there heap arrived) (p : Party) :
    (s.setParty side p).Stands side p there heap arrived where
  here_eq := party_setParty_self s side p
  there_eq := (party_other_setParty s side p).trans h.there_eq
  heap_eq := (heap_setParty s side p).trans h.heap_eq
  arrived_eq := (arrived_setParty s side p).trans h.arrived_eq

/-! ### Records -/

/-- A call is taken by a worker that waits. -/
theorem deliver_call (h : s.Stands side here there heap arrived) (hhere : here.Poised)
    (hspare : 0 < here.pool.spare) {r : Record} (hr : r.kind? = some .call) :
    ∃ i : Nat, here.pool.workers[i]? = some .waiting ∧
      (deliver side s r).Stands side
        { here with pool := here.pool.setWorker i (.running r false) } there heap arrived := by
  obtain ⟨i, hi, hpool⟩ := hhere.schedule.pool_submit hhere.pool hspare r
  refine ⟨i, hi, ?_⟩
  rw [deliver, h.here_eq]
  simp only [Endpoint.dispatch_call hr, hpool]
  exact h.setParty _

/-- A reply takes its ticket out and comes to the caller that has the ticket. -/
theorem deliver_reply (h : s.Stands side here there heap arrived) {r : Record}
    (hr : r.kind? = some .reply) {caller : Nat} {pending : ShardedSlab Nat}
    (hpop : here.endpoint.pending.pop r.userData = (some caller, pending)) :
    (deliver side s r).Stands side { here with endpoint := { here.endpoint with pending } } there
      heap (arrived ++ [(caller, r)]) := by
  rw [deliver, h.here_eq]
  simp only [Endpoint.dispatch_reply hr hpop]
  exact (h.congr { s with arrived := s.arrived ++ [(caller, r)] } rfl rfl h.heap_eq
    (congrArg (· ++ [(caller, r)]) h.arrived_eq)).setParty _

/-- A drop takes a response out and frees its memory. -/
theorem deliver_drop (h : s.Stands side here there heap arrived) {r : Record}
    (hr : r.kind? = some .drop) {reply : StoredReply} {stored : ShardedSlab StoredReply}
    (hpop : here.endpoint.stored.pop r.userData = (some reply, stored)) :
    (deliver side s r).Stands side { here with endpoint := { here.endpoint with stored } } there
      (heap.discard reply.placed) arrived := by
  rw [deliver, h.here_eq]
  simp only [Endpoint.dispatch_drop hr hpop]
  exact (h.congr { s with heap := s.heap.discard reply.placed } rfl rfl
    (congrArg (Heap.discard · reply.placed) h.heap_eq) h.arrived_eq).setParty _

/-- A drop of a response that is not kept changes nothing. -/
theorem deliver_drop_unknown (h : s.Stands side here there heap arrived) {r : Record}
    (hr : r.kind? = some .drop) {stored : ShardedSlab StoredReply}
    (hpop : here.endpoint.stored.pop r.userData = (none, stored)) :
    (deliver side s r).Stands side here there heap arrived := by
  rw [deliver, h.here_eq]
  simp only [Endpoint.dispatch_unknownDrop hr hpop]
  exact (h.congr (s.report _) rfl rfl h.heap_eq h.arrived_eq).setParty _

/-- A record that is sent to a consumer that waits is dispatched. -/
theorem send (h : s.Stands side here there heap arrived) (hthere : there.Poised) (r : Record) :
    ∃ s' inbound, s.send side r = deliver side.other s' r ∧
      Party.Poised { there with inbound } ∧
      s'.Stands side.other { there with inbound } here heap arrived := by
  obtain ⟨hhandled, hvacant⟩ := hthere.schedule.link_push hthere.inbound r
  let link := there.schedule.link (there.inbound.setProducer 0 (.asking (.push r)))
  let inbound : Link Record := { link with handled := #[], reports := #[] }
  let told : Session := { s with reports := s.reports ++ link.reports }
  have htold : told.Stands side.other there here heap arrived :=
    h.symm.congr told rfl rfl h.heap_eq h.arrived_eq
  refine ⟨told.setParty side.other { there with inbound }, inbound, ?_,
    ⟨hthere.schedule, hvacant, hthere.pool, hthere.pending, hthere.stored⟩, htold.setParty _⟩
  rw [Session.send, h.there_eq]
  show Array.foldl _ _ link.handled = _
  rw [hhandled]
  rfl

/-! ### The steps of a call -/

/-- A call takes a ticket at its end and a worker at the peer. -/
theorem openCall (h : s.Stands side here there heap arrived) (hthere : there.Poised)
    (hspare : 0 < there.pool.spare) (callId : UInt32) (address : UInt64) :
    let call := Record.call callId (here.endpoint.openCall s.nextCaller).1 address
    ∃ t inbound, ∃ i : Nat, s.openCall side callId address = (s.nextCaller, call, t) ∧
      there.pool.workers[i]? = some .waiting ∧ (there.serving inbound i call).Poised ∧
      t.Stands side (here.opening s.nextCaller) (there.serving inbound i call) heap arrived := by
  intro call
  have hnext := (h.congr { s with nextCaller := s.nextCaller + 1 } rfl rfl h.heap_eq
    h.arrived_eq).setParty (here.opening s.nextCaller)
  obtain ⟨s', inbound, hsend, hpoised, hs'⟩ := hnext.send hthere call
  obtain ⟨i, hi, hdelivered⟩ := hs'.deliver_call hpoised hspare (Record.kind?_call _ _ _)
  have ht := hdelivered.symm
  rw [Conversation.other_other] at ht
  refine ⟨_, inbound, i, ?_, hi, ⟨hpoised.schedule, hpoised.inbound,
    hpoised.pool.setWorker i (.inr ⟨call, rfl⟩), hpoised.pending, hpoised.stored⟩, ht⟩
  rw [Session.openCall, h.here_eq, ← hsend]
  rfl

/-- A worker whose handler has come to its end replies, and waits for another call. -/
theorem serve {call : Record} {i : Nat}
    (hfind : (s.party side.other).pool.workers.findIdx? (·.job? == some call) = some i)
    {calling : Calling} {response : Option StoredReply}
    (hrespond : s.respond calling side.other call = some (response, t))
    (ht : t.Stands side here there heap []) (hhere : here.Poised) (hthere : there.Poised)
    (hi : there.pool.workers[i]? = some (.running call false)) {caller : Nat}
    (hpop : (here.endpoint.pending.pop call.userData).1 = some caller) :
    ∃ u inbound, s.serve calling side.other call = some u ∧ inbound.Vacant ∧
      u.Stands side (here.hearing inbound call.userData) (there.replying i call response) heap
        [(caller, (there.endpoint.conclude call response).1)] := by
  obtain ⟨hkind, hticket⟩ := there.endpoint.conclude_fst call response
  have hconcluded := ht.symm.setParty
    { there with endpoint := (there.endpoint.conclude call response).2 }
  obtain ⟨u, inbound, hsend, hpoised, hu⟩ :=
    hconcluded.send hhere (there.endpoint.conclude call response).1
  have hreplied := (hu.deliver_reply hkind (by rw [hticket]; exact Prod.ext hpop rfl)).symm
  rw [← hsend, Conversation.other_other] at hreplied
  have hended := (hreplied.setParty (there.replying i call response)).symm
  rw [Conversation.other_other] at hended
  refine ⟨_, inbound, ?_, hpoised.inbound, hended⟩
  rw [Session.serve, hfind]
  simp only [hrespond, Option.bind_eq_bind, Option.bind_some, ht.there_eq, hreplied.here_eq,
    hthere.schedule.pool_finish hthere.pool hi]
  rfl

/-- The reply that has come is taken. -/
theorem collect {caller : Nat} {reply : Record}
    (h : s.Stands side here there heap [(caller, reply)]) :
    ∃ s', s.collect caller = some (reply, s') ∧ s'.Stands side here there heap [] := by
  let taken : Session := { s with arrived := s.arrived.filter (·.1 != caller) }
  refine ⟨taken, ?_, h.congr taken rfl rfl h.heap_eq ?_⟩
  · simp [Session.collect, h.arrived_eq, taken]
  · simp [h.arrived_eq, taken]

/-- A record that releases a response frees it, if the peer keeps it. -/
theorem release (h : s.Stands side here there heap []) (hthere : there.Poised) {v : ReplyView}
    (hhandle : v.handle ≠ 0) :
    ∃ there', (s.release side v).Stands side here there'
        ((there.endpoint.stored.pop v.handle).1.elim heap fun reply ↦ heap.discard reply.placed)
        [] ∧
      there.Resumes there' (there.endpoint.stored.pop v.handle).2 := by
  obtain ⟨t, inbound, hsend, hpoised, ht⟩ := h.send hthere (.drop v.callId v.handle)
  have hdrop : (Record.drop v.callId v.handle).kind? = some .drop := Record.kind?_drop _ _
  have hready := hthere.stored.pop v.handle
  have hfst := ShardedSlab.fst_pop hthere.stored.sound v.handle
  rw [Session.release, ReplyView.drop?_of_ne hhandle]
  rcases hpop : there.endpoint.stored.pop v.handle with ⟨- | reply, stored⟩
  · have hignored := (ht.deliver_drop_unknown hdrop hpop).symm
    rw [Conversation.other_other, ← hsend] at hignored
    rw [hpop] at hfst
    rw [ShardedSlab.pop_of_get?_eq_none hfst.symm] at hpop
    exact ⟨_, hignored, hpoised, rfl, rfl, .refl _, (Prod.ext_iff.1 hpop).2 ▸ .refl _⟩
  · have hfreed := (ht.deliver_drop hdrop hpop).symm
    rw [Conversation.other_other, ← hsend] at hfreed
    rw [hpop] at hready
    exact ⟨_, hfreed, ⟨hpoised.schedule, hpoised.inbound, hpoised.pool, hpoised.pending, hready⟩,
      rfl, rfl, .refl _, .refl _⟩

end Stands

end Session

end RingCall
