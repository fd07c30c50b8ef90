import RingCall.Proofs.Call.Bookkeeping
import RingCall.Proofs.Call.Exchange

/-!
# A record touches what it names

The records that an endpoint reads are its peer's, and nothing is known of their fields. Still, a
record changes no more than what it names (`Endpoint.Reachable.touches_named`). A reply takes out
the ticket that it repeats, a drop takes out the response that it gives back, and a call that is
served adds one response under a new handle and sends one reply. A number that is not in use names
nothing: it leads to a shard and a slot as any other number does, but finds no value there.

All that is needed of an endpoint is that its slabs are sound. They are, whatever records it has
read before and however many of its threads are about to store a value (`Endpoint.Reachable.sound`).
The endpoints of a conversation are among those (`Conversation.reachable_of_run?`).

The handle of a new response is made of the number of a slot. It leads back to the slot if the
numbers of the slots fit into handles, as they do in conversations of fewer turns than there are
words, less the number of shards (`Conversation.fits_of_run?`). That the other responses stay where
they are does not depend on it.
-/

namespace RingCall

open Wire

/-! ### Slabs that differ under one handle -/

namespace ShardedSlab

variable {α : Type} {s : ShardedSlab α} {handle : UInt64} {v : α}

/-- The value under a handle has been taken out, and no other one. -/
structure Loses (s : ShardedSlab α) (handle : UInt64) (s' : ShardedSlab α) : Prop where
  sound : s'.Sound
  get?_eq : ∀ h, s'.get? h = if h = handle then none else s.get? h
  len_eq : s'.len + 1 = s.len

/-- A value has been stored under a handle that was not in use, and no other one. -/
structure Gains (s : ShardedSlab α) (handle : UInt64) (v : α) (s' : ShardedSlab α) : Prop where
  ne_zero : handle ≠ 0
  free : s.get? handle = none
  get?_eq : ∀ h, s'.get? h = if h = handle then some v else s.get? h
  len_eq : s'.len = s.len + 1

/-- A number that no value can have: 0, or one beyond the slots of the shard that it leads to. -/
def IsForeign (s : ShardedSlab α) (handle : UInt64) : Prop :=
  handle = 0 ∨ (s.shard (s.shardOf handle)).slots.size ≤ s.innerOf handle

/-- Nothing is found under a number that no value can have. -/
theorem Sound.get?_of_isForeign (hs : s.Sound) (hforeign : s.IsForeign handle) :
    s.get? handle = none := by
  obtain rfl | hbeyond := hforeign
  · exact get?_zero hs
  · rw [get?_eq]
    refine Option.eq_none_iff_forall_ne_some.2 fun v hget ↦ ?_
    exact absurd (Slab.lt_size_of_get? hget) (Nat.not_lt.2 hbeyond)

/-- Taking out a value that is there loses that one only. -/
theorem Sound.loses_pop (hs : s.Sound) (hlive : s.get? handle = some v) :
    s.Loses handle (s.pop handle).2 where
  sound := hs.pop handle
  get?_eq := get?_pop hs handle
  len_eq := len_pop hs hlive

/-- Storing a value gains that one only, under a new handle. -/
theorem Sound.gains_push (hs : s.Sound) (hf : (s.push v).2.Fits) :
    s.Gains (s.push v).1 v (s.push v).2 where
  ne_zero := fst_push_ne_zero hs hf
  free := get?_fst_push hs hf
  get?_eq := get?_push hs hf
  len_eq := s.len_push v

/-- Values stay where they are when another one is stored, even if its slot has a number for which
there is no handle. -/
theorem Sound.get?_push_of_eq_some (hs : s.Sound) {h : UInt64} {w : α} (hlive : s.get? h = some w) :
    (s.push v).2.get? h = some w := by
  have hget : (s.push v).2.get? h = if s.shardOf h = s.nextShard then
      ((s.shard s.nextShard).push v).2.get? (s.innerOf h) else s.get? h := s.get?_replace _ _ _ h
  rw [hget]
  split
  · next hshard =>
    rw [get?_eq, hshard] at hlive
    have hne : s.innerOf h ≠ ((s.shard s.nextShard).push v).1 := fun heq ↦ by
      rw [heq, (hs s.nextShard).get?_fst_push v] at hlive
      exact nomatch hlive
    rw [(hs s.nextShard).get?_push, if_neg hne, hlive]
  · exact hlive

end ShardedSlab

/-! ### Which endpoints there are -/

namespace Record

variable {r : Record}

/-- The kind of a record is read off its flag. -/
theorem kind?_eq_some_iff {k : RecordKind} : r.kind? = some k ↔ r.flag = k.flag := by
  constructor
  · intro h
    rw [kind?, RecordKind.ofFlag?] at h
    have hfound := List.find?_some h
    exact (beq_iff_eq.1 hfound).symm
  · intro h
    rw [kind?, h, RecordKind.ofFlag?_flag]

/-- A record has no kind if its flag is that of none. -/
theorem kind?_eq_none_iff : r.kind? = none ↔ ∀ k : RecordKind, r.flag ≠ k.flag := by
  rw [Option.eq_none_iff_forall_ne_some]
  exact forall_congr' fun k ↦ not_congr kind?_eq_some_iff

end Record

namespace Endpoint

variable {e : Endpoint} {r : Record}

/-- The endpoints that can come about, whoever the peer is. Any records are dispatched, and in
between threads choose a shard for a ticket or a response, or store it in a shard that they have
chosen. Which thread has chosen which shard is left open. -/
inductive Reachable : Endpoint → Prop where
  | new {registry : Registry} {shards : UInt64} {e : Endpoint}
      (h : Endpoint.new registry shards = .ok e) : Reachable e
  | dispatch {e : Endpoint} (h : e.Reachable) (r : Record) : Reachable (e.dispatch r).2
  | chooseForTicket {e : Endpoint} (h : e.Reachable) :
      Reachable { e with pending := e.pending.advance.2 }
  | storeTicket {e : Endpoint} (h : e.Reachable) (shard : Fin (1 <<< e.pending.bits))
      (caller : Nat) :
      Reachable { e with pending := (e.pending.pushAt shard caller).2 }
  | chooseForResponse {e : Endpoint} (h : e.Reachable) :
      Reachable { e with stored := e.stored.advance.2 }
  | storeResponse {e : Endpoint} (h : e.Reachable) (shard : Fin (1 <<< e.stored.bits))
      (response : StoredReply) : Reachable { e with stored := (e.stored.pushAt shard response).2 }

/-- What a record does to an endpoint. -/
inductive Touches (e : Endpoint) (r : Record) : Effect → Endpoint → Prop where
  | unknown (hflag : ∀ k : RecordKind, r.flag ≠ k.flag) :
      Touches e r (.ignore (.unknownFlag r.flag)) e
  | call (hflag : r.flag = RecordKind.call.flag) : Touches e r (.serve r) e
  | reply {caller : Nat} {pending : ShardedSlab Nat} (hflag : r.flag = RecordKind.reply.flag)
      (hlive : e.pending.get? r.userData = some caller)
        (hloses : e.pending.Loses r.userData pending) :
      Touches e r (.arrive caller r) { e with pending }
  | unknownReply (hflag : r.flag = RecordKind.reply.flag)
      (hfree : e.pending.get? r.userData = none) :
      Touches e r (.ignore (.unknownReply r.callId r.userData)) e
  | drop {response : StoredReply} {stored : ShardedSlab StoredReply}
      (hflag : r.flag = RecordKind.drop.flag) (hlive : e.stored.get? r.userData = some response)
      (hloses : e.stored.Loses r.userData stored) : Touches e r (.free response) { e with stored }
  | unknownDrop (hflag : r.flag = RecordKind.drop.flag) (hfree : e.stored.get? r.userData = none) :
      Touches e r (.ignore (.unknownDrop r.callId r.userData)) e

/-- What the reply to a call is, and what becomes of the endpoint that replies. -/
inductive Replies (e : Endpoint) (call : Record) : Option StoredReply → Record →
    Endpoint → Prop where
  | empty : Replies e call none (.reply call.callId call.userData 0 0) e
  /-- The response is stored. Its handle is a new one if the numbers of the slots fit into
  handles. -/
  | full {response : StoredReply} {handle : UInt64} {stored : ShardedSlab StoredReply}
      (hkeeps : ∀ h kept, e.stored.get? h = some kept → stored.get? h = some kept)
      (hgains : stored.Fits → e.stored.Gains handle response stored) :
      Replies e call (some response) (.reply call.callId call.userData handle response.address)
        { e with stored }

/-- Both slabs of an endpoint are sound. -/
structure Sound (e : Endpoint) : Prop where
  pending : e.pending.Sound
  stored : e.stored.Sound

namespace Sound

/-- Each record touches no more than what it names, when the slabs are sound. -/
theorem touches (h : e.Sound) (r : Record) : e.Touches r (e.dispatch r).1 (e.dispatch r).2 := by
  rcases hk : r.kind? with - | - | - | -
  · rw [dispatch_unknown hk]
    exact .unknown (Record.kind?_eq_none_iff.1 hk)
  · rw [dispatch_call hk]
    exact .call (Record.kind?_eq_some_iff.1 hk)
  · have hflag := Record.kind?_eq_some_iff.1 hk
    rcases hget : e.pending.get? r.userData with - | caller
    · rw [dispatch_unknownReply hk (ShardedSlab.pop_of_get?_eq_none hget)]
      exact .unknownReply hflag hget
    · rw [dispatch_reply hk (ShardedSlab.pop_of_get?_eq_some h.pending hget)]
      exact .reply hflag hget (h.pending.loses_pop hget)
  · have hflag := Record.kind?_eq_some_iff.1 hk
    rcases hget : e.stored.get? r.userData with - | response
    · rw [dispatch_unknownDrop hk (ShardedSlab.pop_of_get?_eq_none hget)]
      exact .unknownDrop hflag hget
    · rw [dispatch_drop hk (ShardedSlab.pop_of_get?_eq_some h.stored hget)]
      exact .drop hflag hget (h.stored.loses_pop hget)

/-- A reply says what became of its call, and the endpoint keeps what the reply refers to. -/
theorem replies (h : e.Sound) (call : Record) (response : Option StoredReply) :
    e.Replies call response (e.conclude call response).1 (e.conclude call response).2 := by
  rcases response with - | response
  · exact .empty
  · exact .full (fun _ _ hlive ↦ h.stored.get?_push_of_eq_some hlive) fun hf ↦
      h.stored.gains_push hf

end Sound

/-- The slabs remain sound whatever a record touches. -/
theorem Touches.sound {effect : Effect} {e' : Endpoint} (h : e.Touches r effect e') (hs : e.Sound) :
    e'.Sound := by
  match h with
  | .unknown _ | .call _ | .unknownReply _ _ | .unknownDrop _ _ => exact hs
  | .reply _ _ hloses => exact ⟨hloses.sound, hs.stored⟩
  | .drop _ _ hloses => exact ⟨hs.pending, hloses.sound⟩

namespace Reachable

/-- Opening a call leads to an endpoint that can come about. -/
theorem openCall (h : e.Reachable) (caller : Nat) : (e.openCall caller).2.Reachable :=
  h.chooseForTicket.storeTicket e.pending.advance.1 caller

/-- So does concluding one. -/
theorem conclude (h : e.Reachable) (call : Record) (response : Option StoredReply) :
    (e.conclude call response).2.Reachable := by
  rcases response with - | response
  · exact h
  · exact h.chooseForResponse.storeResponse e.stored.advance.1 response

/-- **The slabs of an endpoint remain sound**, whatever its peer sends. -/
theorem sound (h : e.Reachable) : e.Sound := by
  induction h with
  | new h =>
    obtain ⟨bits, -, hpending, hstored⟩ := Endpoint.new_eq_ok h
    exact ⟨hpending ▸ ShardedSlab.sound_ofBits bits, hstored ▸ ShardedSlab.sound_ofBits bits⟩
  | dispatch _ r ih => exact (ih.touches r).sound ih
  | chooseForTicket _ ih => exact ⟨ih.pending.advance, ih.stored⟩
  | storeTicket _ shard caller ih => exact ⟨ih.pending.pushAt shard caller, ih.stored⟩
  | chooseForResponse _ ih => exact ⟨ih.pending, ih.stored.advance⟩
  | storeResponse _ shard response ih => exact ⟨ih.pending, ih.stored.pushAt shard response⟩

/-- What comes of an endpoint by a turn of a conversation. -/
theorem turnStep {p q p' q' : Speaker} {turn : Turn} (h : p.endpoint.Reachable)
    (hstep : TurnStep p q turn p' q') : p'.endpoint.Reachable := by
  cases hstep with
  | openCall => exact h.openCall _
  | @arrive reply _ _ _ hk hpop =>
    have hnext := h.dispatch reply
    rwa [dispatch_reply hk (Prod.ext hpop rfl)] at hnext
  | @free drop _ _ _ hk hpop =>
    have hnext := h.dispatch drop
    rwa [dispatch_drop hk (Prod.ext hpop rfl)] at hnext
  | @conclude _ call response => exact h.conclude call (some response)
  | sendCall | serve | ignore | concludeEmpty | sendReply | receive | release | releaseEmpty =>
    exact h

end Reachable

end Endpoint

/-- Turns of a conversation lead to no other endpoints, in whatever order they are taken. -/
theorem Conversation.reachable_of_run? {c c' : Conversation} {turns : List (Side × Turn)}
    (hrun : c.run? turns = some c') (h : ∀ side, (c side).endpoint.Reachable) (side : Side) :
    (c' side).endpoint.Reachable := by
  refine foldlM_preserves (P := fun c : Conversation ↦ ∀ side, (c side).endpoint.Reachable)
    ?_ hrun h side
  intro turn _ c c' hturn h side
  have hstep := turnStep_of_step hturn
  rcases eq_or_eq_other turn.1 side with rfl | rfl
  · exact (h _).turnStep hstep
  · rw [Speaker.endpoint_listen hstep]
    exact h _

/-! ### Serving a call -/

/-- What an end answers a call with, if the handler makes no calls itself: a value, or nothing if
there is no handler or it panics. -/
inductive Registry.Responds (registry : Registry) (m : Memory) (call : Record) :
    Option ((t : Ty) × t.Value) → Prop where
  | value {handler : Handler} {t : Ty} {w : t.Value}
      (hfind : registry.find? call.callId = some handler)
      (hreact : handler.react m call.address = .reply t w) : Responds registry m call (some ⟨t, w⟩)
  | panic {handler : Handler} (hfind : registry.find? call.callId = some handler)
      (hreact : handler.react m call.address = .panic) : Responds registry m call none
  | noHandler (hfind : registry.find? call.callId = none) : Responds registry m call none

/-- A value as it is kept for the peer. -/
def Wire.Heap.kept (h : Heap) (v : (t : Ty) × t.Value) : StoredReply :=
  ⟨.ofNat (h.store v.1 v.2).1.refAddress, (h.store v.1 v.2).1⟩

namespace Session

variable {s s' : Session} {side : Side} {r : Record}

@[simp] theorem party_setParty_other (s : Session) (side : Side) (p : Party) :
    (s.setParty side.other p).party side = s.party side := by cases side <;> rfl

@[simp] theorem party_report (s : Session) (report : Report) (side : Side) :
    (s.report report).party side = s.party side := by cases side <;> rfl

/-- A record makes a difference only to the end that reads it. -/
theorem party_deliver_other (s : Session) (side : Side) (r : Record) :
    (deliver side.other s r).party side = s.party side := by
  rw [deliver]
  split <;> rw [party_setParty_other] <;> cases side <;> rfl

/-- What a record does to the end that reads it depends on nothing else. -/
theorem party_deliver_congr (h : s.party side = s'.party side) (r : Record) :
    (deliver side s r).party side = (deliver side s' r).party side := by
  simp only [deliver, h]
  split <;> simp only [party_setParty_self]

/-- Sending a record changes nothing at the end that sends it. -/
theorem party_send (s : Session) (side : Side) (r : Record) :
    (s.send side r).party side = s.party side := by
  rw [send, ← Array.foldl_toList]
  refine List.foldlRecOn (motive := fun t : Session ↦ t.party side = s.party side) _ _ ?_ ?_
  · rw [party_setParty_other]
    cases side <;> rfl
  · intro t ht r _
    rw [party_deliver_other, ht]

/-- What a record does to the peer depends on the peer alone. -/
theorem party_other_send_congr (h : s.party side.other = s'.party side.other) (r : Record) :
    (s.send side r).party side.other = (s'.send side r).party side.other := by
  rw [send, send, h, ← Array.foldl_toList, ← Array.foldl_toList]
  refine List.foldl_rel (r := fun t t' : Session ↦ t.party side.other = t'.party side.other) ?_ ?_
  · rw [party_setParty_self, party_setParty_self]
  · intro r _ t t' ht
    exact party_deliver_congr ht r

/-- A handler that makes no calls changes neither end while it runs. -/
theorem respond_of_responds {answer : Option ((t : Ty) × t.Value)}
    (h : (s.party side).endpoint.registry.Responds s.heap.memory r answer) (calling : Calling) :
    ∃ t, s.respond calling side r = some (answer.map s.heap.kept, t) ∧
      ∀ side, t.party side = s.party side := by
  rw [respond]
  cases h with
  | value hfind hreact =>
    simp only [hfind, hreact]
    refine ⟨_, rfl, ?_⟩
    rintro (- | -) <;> rfl
  | panic hfind hreact =>
    simp only [hfind, hreact]
    exact ⟨_, rfl, party_report _ _⟩
  | noHandler hfind =>
    simp only [hfind]
    exact ⟨_, rfl, party_report _ _⟩

/-- A worker that has a call in hand sends one record, the reply. -/
theorem serve_of_responds (hhand : r ∈ (s.party side).pool.inHand)
    {answer : Option ((t : Ty) × t.Value)}
    (h : (s.party side).endpoint.registry.Responds s.heap.memory r answer) (calling : Calling) :
    let concluded := (s.party side).endpoint.conclude r (answer.map s.heap.kept)
    ∃ t, s.serve calling side r = some t ∧ (t.party side).endpoint = concluded.2 ∧
      t.party side.other = (s.send side concluded.1).party side.other := by
  intro concluded
  obtain ⟨u, hrespond, hparty⟩ := respond_of_responds h calling
  obtain ⟨worker, hworker⟩ : ∃ worker,
      (s.party side).pool.workers.findIdx? (·.job? == some r) = some worker := by
    obtain ⟨w, hw, hjob⟩ := List.mem_filterMap.1 hhand
    refine Option.ne_none_iff_exists'.1 fun hnone ↦ ?_
    have hother := List.findIdx?_eq_none_iff.1 hnone w hw
    rw [hjob, beq_self_eq_true] at hother
    exact nomatch hother
  let told := u.setParty side { s.party side with endpoint := concluded.2 }
  let replied := told.send side concluded.1
  have hreplied : replied.party side = { s.party side with endpoint := concluded.2 } := by
    rw [party_send, party_setParty_self]
  let p := replied.party side
  refine ⟨replied.setParty side
    { p with pool := p.schedule.pool ((p.pool.finish? worker).getD p.pool) }, ?_, ?_, ?_⟩
  · rw [serve, hworker]
    simp only [hrespond, Option.bind_eq_bind, Option.bind_some, hparty]
    rfl
  · rw [party_setParty_self]
    exact congrArg Party.endpoint hreplied
  · rw [party_other_setParty]
    refine party_other_send_congr ?_ _
    rw [party_other_setParty, hparty]

end Session

/-! ### The theorem -/

/-- **A record touches what it names.** Whatever an endpoint has been sent before, and whatever the
fields of a record are: a record of no kind changes nothing, a reply takes out the ticket that it
repeats and a drop takes out the response that it gives back, if there is one. A number that no
value can have changes nothing. A call changes nothing at first. When a worker serves it and the
handler makes no calls itself, one record is sent to the peer, which is the reply. It repeats the id
and the ticket of the call, and it carries the handle and the address of a response that is then
stored, or else zeros. All other tickets and responses are found where they were. -/
theorem Endpoint.Reachable.touches_named {e : Endpoint} (he : e.Reachable) (r : Record) :
    e.Touches r (e.dispatch r).1 (e.dispatch r).2 ∧
    (r.flag = RecordKind.reply.flag → e.pending.IsForeign r.userData → (e.dispatch r).2 = e) ∧
    (r.flag = RecordKind.drop.flag → e.stored.IsForeign r.userData → (e.dispatch r).2 = e) ∧
    ∀ (s : Session) (side : Side) (calling : Calling) (answer : Option ((t : Ty) × t.Value)),
      (s.party side).endpoint = e → r ∈ (s.party side).pool.inHand →
      e.registry.Responds s.heap.memory r answer →
      ∃ reply t, s.serve calling side r = some t ∧
        t.party side.other = (s.send side reply).party side.other ∧
        e.Replies r (answer.map s.heap.kept) reply (t.party side).endpoint := by
  have hs := he.sound
  refine ⟨hs.touches r, ?_, ?_, ?_⟩
  · intro hflag hforeign
    have hpop := ShardedSlab.pop_of_get?_eq_none (hs.pending.get?_of_isForeign hforeign)
    rw [dispatch_unknownReply (Record.kind?_eq_some_iff.2 hflag) hpop]
  · intro hflag hforeign
    have hpop := ShardedSlab.pop_of_get?_eq_none (hs.stored.get?_of_isForeign hforeign)
    rw [dispatch_unknownDrop (Record.kind?_eq_some_iff.2 hflag) hpop]
  · rintro s side calling answer rfl hhand hresponds
    obtain ⟨t, hserve, hendpoint, hpeer⟩ := Session.serve_of_responds hhand hresponds calling
    refine ⟨_, t, hserve, hpeer, ?_⟩
    rw [hendpoint]
    exact hs.replies r (answer.map s.heap.kept)

namespace Endpoint

/-- An endpoint of two shards that answers any call with 5, has a ticket out and keeps a
response. -/
def occupied : Endpoint :=
  let registry := Registry.empty.withFallback fun _ ↦
    ⟨.word, .word, fun _ _ ↦ .reply .word (5 : UInt64)⟩
  let asked := ((⟨registry, .ofBits 1, .ofBits 1⟩ : Endpoint).openCall 0).2
  (asked.conclude (.call 1 2 0) (some ⟨4096, ⟨[], ⟨4096, #[], 0⟩⟩⟩)).2

/-- A call that claims for itself the ticket and the handle that are in use. -/
def forgedCall : Record := ⟨1, 2, 2, 9, RecordKind.call.flag⟩

/-- A session in which a worker of the endpoint has a forged call in hand, and nobody reads the
reply. -/
def occupiedSession : Session :=
  let ring : Ring Record := .blank 1 (by decide)
  let pool := (Pool.new 1 1).setWorker 0 (.running forgedCall false)
  .ofParties { Party.absent ring with endpoint := occupied, pool } (.absent ring)

/-- The session after the call was served. -/
def repliedSession : Session :=
  (occupiedSession.serve (Session.callWithin 0) .left forgedCall).get (by decide +kernel)

/-- A drop of a number that no value can have changes nothing, and a forged call gets a handle of
its own. -/
theorem touches_named_forged :
    occupied.Reachable ∧ occupied.stored.IsForeign 6 ∧
    (occupied.dispatch (.drop 9 6)).2 = occupied ∧
    forgedCall ∈ (occupiedSession.party .left).pool.inHand ∧
    occupied.registry.Responds occupiedSession.heap.memory forgedCall (some ⟨.word, (5 : UInt64)⟩) ∧
    ∃ reply, (repliedSession.party .right) = (occupiedSession.send .left reply).party .right ∧
      reply.callId = 9 ∧ reply.userData = 2 ∧ reply.next ≠ 0 ∧
      occupied.stored.get? reply.next = none ∧
      (repliedSession.party .left).endpoint.stored.get? reply.next =
        some (occupiedSession.heap.kept ⟨.word, (5 : UInt64)⟩) ∧
      (repliedSession.party .left).endpoint.pending = occupied.pending := by
  have hnew : Endpoint.new occupied.registry 2 = .ok ⟨occupied.registry, .ofBits 1, .ofBits 1⟩ :=
    rfl
  have hreachable : occupied.Reachable := ((Reachable.new hnew).openCall 0).conclude _ _
  have hforeign : occupied.stored.IsForeign 6 := .inr (by decide)
  have hhand : forgedCall ∈ (occupiedSession.party .left).pool.inHand := by decide
  have hresponds : occupied.registry.Responds occupiedSession.heap.memory forgedCall
      (some ⟨.word, (5 : UInt64)⟩) := .value rfl rfl
  obtain ⟨-, -, hdrop, -⟩ := hreachable.touches_named (.drop 9 6)
  obtain ⟨-, -, -, hcall⟩ := hreachable.touches_named forgedCall
  obtain ⟨reply, t, hserve, hpeer, hreplies⟩ :=
    hcall occupiedSession .left (Session.callWithin 0) _ rfl hhand hresponds
  obtain rfl : repliedSession = t := Option.some.inj ((Option.some_get _).trans hserve)
  have hfits : (repliedSession.party .left).endpoint.stored.Fits := by decide +kernel
  refine ⟨hreachable, hforeign, hdrop rfl hforeign, hhand, hresponds, reply, hpeer, ?_⟩
  rw [Option.map_some] at hreplies
  generalize (repliedSession.party .left).endpoint = e at hreplies hfits ⊢
  cases hreplies with
  | full _ hgains =>
    have hgained := hgains hfits
    exact ⟨rfl, rfl, hgained.ne_zero, hgained.free, by rw [hgained.get?_eq]; exact if_pos rfl, rfl⟩

end Endpoint

end RingCall
