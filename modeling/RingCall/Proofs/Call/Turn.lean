import RingCall.Call.Conversation

/-!
# The turns of a conversation, one by one

`TurnStep p q turn p' q'` lists what a turn of one end can do: the end that takes it is `p`, the
other one is `q`, and `p'` and `q'` are the two ends afterwards. Every turn that can be taken is in
the list (`Conversation.turnStep_of_step`). In particular the other end never notices more than that
a record was sent to it.
-/

namespace RingCall

/-- Whether a record is of a kind. -/
def Record.is (r : Record) (k : RecordKind) : Bool := r.kind? == some k

namespace Record

theorem is_iff {r : Record} {k : RecordKind} : r.is k = true ↔ r.kind? = some k := beq_iff_eq

@[simp] theorem kind?_call (callId : UInt32) (userData address : UInt64) :
    (Record.call callId userData address).kind? = some .call := RecordKind.ofFlag?_flag .call

@[simp] theorem kind?_reply (callId : UInt32) (userData next address : UInt64) :
    (Record.reply callId userData next address).kind? = some .reply :=
      RecordKind.ofFlag?_flag .reply

@[simp] theorem kind?_drop (callId : UInt32) (handle : UInt64) :
    (Record.drop callId handle).kind? = some .drop := RecordKind.ofFlag?_flag .drop

@[simp] theorem userData_call (callId : UInt32) (userData address : UInt64) :
    (Record.call callId userData address).userData = userData := rfl

@[simp] theorem userData_reply (callId : UInt32) (userData next address : UInt64) :
    (Record.reply callId userData next address).userData = userData := rfl

@[simp] theorem userData_drop (callId : UInt32) (handle : UInt64) :
    (Record.drop callId handle).userData = handle := rfl

@[simp] theorem next_reply (callId : UInt32) (userData next address : UInt64) :
    (Record.reply callId userData next address).next = next := rfl

end Record

/-! ### What a record does on arrival, kind by kind -/

namespace Endpoint

variable {e : Endpoint} {r : Record} {pending : ShardedSlab Nat} {stored : ShardedSlab StoredReply}

/-- A record of no kind leads to a report. -/
theorem dispatch_unknown (hk : r.kind? = none) :
    e.dispatch r = (.ignore (.unknownFlag r.flag), e) := by
  rw [dispatch, hk]

/-- A call is passed on to be served. -/
theorem dispatch_call (hk : r.kind? = some .call) : e.dispatch r = (.serve r, e) := by
  rw [dispatch, hk]

/-- A reply with a live ticket comes to the caller of the ticket. -/
theorem dispatch_reply {caller : Nat} (hk : r.kind? = some .reply)
    (hpop : e.pending.pop r.userData = (some caller, pending)) :
    e.dispatch r = (.arrive caller r, { e with pending }) := by
  rw [dispatch, hk]
  simp only [hpop]

/-- A reply with any other number leads to a report. -/
theorem dispatch_unknownReply (hk : r.kind? = some .reply)
    (hpop : e.pending.pop r.userData = (none, pending)) :
    e.dispatch r = (.ignore (.unknownReply r.callId r.userData), e) := by
  rw [dispatch, hk]
  simp only [hpop]

/-- A drop of a response that is kept frees it. -/
theorem dispatch_drop {response : StoredReply} (hk : r.kind? = some .drop)
    (hpop : e.stored.pop r.userData = (some response, stored)) :
    e.dispatch r = (.free response, { e with stored }) := by
  rw [dispatch, hk]
  simp only [hpop]

/-- A drop of anything else leads to a report. -/
theorem dispatch_unknownDrop (hk : r.kind? = some .drop)
    (hpop : e.stored.pop r.userData = (none, stored)) :
    e.dispatch r = (.ignore (.unknownDrop r.callId r.userData), e) := by
  rw [dispatch, hk]
  simp only [hpop]

end Endpoint

/-- The turns of an end `p`. -/
inductive TurnStep (p q : Speaker) : Turn → Speaker → Speaker → Prop where
  | openCall (callId : UInt32) (address : UInt64) :
      TurnStep p q (.openCall callId address) (Conversation.openCall p callId address) q
  | sendCall {i call} (h : p.opened[i]? = some call) :
      TurnStep p q (.sendCall i) { p with opened := p.opened.eraseIdx i }
        { q with inbound := q.inbound ++ [call] }
  /-- A call is accepted. -/
  | serve {call rest} (h : p.inbound = call :: rest) (hk : call.kind? = some .call) :
      TurnStep p q .dispatch { p with inbound := rest, jobs := p.jobs ++ [call] } q
  /-- A reply reaches its caller. -/
  | arrive {reply rest caller} (h : p.inbound = reply :: rest) (hk : reply.kind? = some .reply)
      (hpop : (p.endpoint.pending.pop reply.userData).1 = some caller) :
      TurnStep p q .dispatch
        { p with
          endpoint :=
            { p.endpoint with pending := (p.endpoint.pending.pop reply.userData).2 }
          inbound := rest
          arrived := p.arrived ++ [(caller, reply)] } q
  /-- A response is given back. -/
  | free {drop rest response} (h : p.inbound = drop :: rest) (hk : drop.kind? = some .drop)
      (hpop : (p.endpoint.stored.pop drop.userData).1 = some response) :
      TurnStep p q .dispatch
        { p with
          endpoint := { p.endpoint with stored := (p.endpoint.stored.pop drop.userData).2 }
          inbound := rest } q
  /-- A record is passed over. -/
  | ignore {r rest report} (h : p.inbound = r :: rest)
      (hr : (p.endpoint.dispatch r).1 = .ignore report) :
      TurnStep p q .dispatch { p with inbound := rest } q
  /-- A call is answered with a response. -/
  | conclude {i call} (response : StoredReply) (h : p.jobs[i]? = some call) :
      TurnStep p q (.conclude i (some response))
        { p with
          endpoint := { p.endpoint with stored := (p.endpoint.stored.push response).2 }
          jobs := p.jobs.eraseIdx i
          outbox := p.outbox ++
            [.reply call.callId call.userData (p.endpoint.stored.push response).1
              response.address] } q
  /-- A call is answered without a response. -/
  | concludeEmpty {i call} (h : p.jobs[i]? = some call) :
      TurnStep p q (.conclude i none)
        { p with
          jobs := p.jobs.eraseIdx i
          outbox := p.outbox ++ [.reply call.callId call.userData 0 0] } q
  | sendReply {i reply} (h : p.outbox[i]? = some reply) :
      TurnStep p q (.sendReply i) { p with outbox := p.outbox.eraseIdx i }
        { q with inbound := q.inbound ++ [reply] }
  | receive {i caller reply call} (h : p.arrived[i]? = some (caller, reply))
      (hcall : p.asked.lookup caller = some call) :
      TurnStep p q (.receive i)
        { p with
          arrived := p.arrived.eraseIdx i
          views := p.views ++ [.ofReply call.callId reply] } q
  /-- A response is let go, which the other end is told. -/
  | release {i view} (h : p.views[i]? = some view) (hne : view.handle ≠ 0) :
      TurnStep p q (.release i) { p with views := p.views.eraseIdx i }
        { q with inbound := q.inbound ++ [.drop view.callId view.handle] }
  | releaseEmpty {i view} (h : p.views[i]? = some view) (hz : view.handle = 0) :
      TurnStep p q (.release i) { p with views := p.views.eraseIdx i } q

namespace Conversation

variable {c c' : Conversation} {side : Side} {turn : Turn} {p q : Speaker} {r : Record}
  {rest : List Record}

@[simp] theorem other_other (side : Side) : side.other.other = side := by cases side <;> rfl

/-- There are only two ends. -/
theorem eq_or_eq_other (side other : Side) : other = side ∨ other = side.other := by
  cases side <;> cases other <;> simp [Side.other]

@[simp] theorem update_self_other (c : Conversation) (side : Side) (s : Speaker) :
    c.update side.other s side = c side := by
  cases side <;> simp [update, Side.other]

/-- A record that leads to a report is one that is ignored. -/
theorem turnStep_ignore (hin : p.inbound = r :: rest) {report : Report}
    (hr : p.endpoint.dispatch r = (.ignore report, p.endpoint)) :
    TurnStep p q .dispatch (accept { p with inbound := rest } r) q := by
  have haccept : accept { p with inbound := rest } r = { p with inbound := rest } := by
    simp [accept, hr]
  rw [haccept]
  exact .ignore hin (congrArg Prod.fst hr)

/-- The oldest record at an end is dispatched. -/
theorem turnStep_accept (hin : p.inbound = r :: rest) :
    TurnStep p q .dispatch (accept { p with inbound := rest } r) q := by
  rcases hk : r.kind? with - | - | - | -
  · exact turnStep_ignore hin (Endpoint.dispatch_unknown hk)
  · have haccept : accept { p with inbound := rest } r =
        { p with inbound := rest, jobs := p.jobs ++ [r] } := by
      simp [accept, Endpoint.dispatch_call hk]
    rw [haccept]
    exact .serve hin hk
  · rcases hpop : p.endpoint.pending.pop r.userData with ⟨- | caller, pending⟩
    · exact turnStep_ignore hin (Endpoint.dispatch_unknownReply hk hpop)
    · have hstep := TurnStep.arrive (q := q) hin hk (congrArg Prod.fst hpop)
      simpa [accept, Endpoint.dispatch_reply hk hpop, hpop] using hstep
  · rcases hpop : p.endpoint.stored.pop r.userData with ⟨- | response, stored⟩
    · exact turnStep_ignore hin (Endpoint.dispatch_unknownDrop hk hpop)
    · have hstep := TurnStep.free (q := q) hin hk (congrArg Prod.fst hpop)
      simpa [accept, Endpoint.dispatch_drop hk hpop, hpop] using hstep

/-- What can happen in a conversation is one of the turns, seen from the end whose turn it is. -/
theorem turnStep_of_step (h : c.step side turn = some c') :
    TurnStep (c side) (c side.other) turn (c' side) (c' side.other) := by
  unfold step at h
  cases turn with
  | openCall callId address =>
    obtain rfl := Option.some.inj h
    simpa using .openCall callId address
  | sendCall i =>
    obtain ⟨call, hi, hc⟩ := Option.bind_eq_some_iff.1 h
    obtain rfl := Option.some.inj hc
    simpa [send] using .sendCall hi
  | dispatch =>
    simp only at h
    split at h
    · cases h
    · next r rest hin =>
      obtain rfl := Option.some.inj h
      -- there is a turn for each kind of record
      simpa using turnStep_accept hin
  | conclude i response =>
    obtain ⟨call, hi, hc⟩ := Option.bind_eq_some_iff.1 h
    obtain rfl := Option.some.inj hc
    cases response with
    | none => simpa [Endpoint.conclude] using .concludeEmpty hi
    | some response => simpa [Endpoint.conclude] using .conclude response hi
  | sendReply i =>
    obtain ⟨reply, hi, hc⟩ := Option.bind_eq_some_iff.1 h
    obtain rfl := Option.some.inj hc
    simpa [send] using .sendReply hi
  | receive i =>
    obtain ⟨⟨caller, reply⟩, hi, hrest⟩ := Option.bind_eq_some_iff.1 h
    obtain ⟨call, hcall, hc⟩ := Option.bind_eq_some_iff.1 hrest
    obtain rfl := Option.some.inj hc
    simpa using .receive hi hcall
  | release i =>
    obtain ⟨view, hi, hc⟩ := Option.bind_eq_some_iff.1 h
    obtain rfl := Option.some.inj hc
    by_cases hz : view.handle = 0
    · simpa [ReplyView.drop?, ReplyView.isEmpty, hz] using .releaseEmpty hi hz
    · simpa [ReplyView.drop?, ReplyView.isEmpty, hz, send] using .release hi hz

end Conversation

end RingCall
