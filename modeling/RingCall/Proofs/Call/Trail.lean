import Mathlib.Data.List.InsertIdx
import RingCall.Proofs.Call.Ledger

/-!
# Whose call a reply answers

A trail follows the calls of one end through a conversation: at each place where a call or its reply
can stand, it says which caller's it is. It is made from the turns alone, by moving an entry
whenever a turn moves a record (`Trail.ask`, `Trail.serve`), and looks at no ticket.

What the tickets say agrees with it (`Speaker.Owned`): the caller found under the ticket of a record
is the one whose call the trail has there. In particular a reply arrives at the caller whose call it
answers, although tickets are used again.
-/

namespace RingCall

/-- The callers whose calls are under way, by the place where the call or its reply is. -/
structure Trail where
  /-- The calls that were not sent. -/
  opened : List Nat
  /-- The calls on their way. -/
  sent : List Nat
  /-- The calls accepted by the other end. -/
  jobs : List Nat
  /-- The replies that were not sent. -/
  outbox : List Nat
  /-- The replies on their way. -/
  replied : List Nat
  /-- The replies that have arrived. -/
  arrived : List Nat

namespace Trail

/-- No calls. -/
def empty : Trail := ⟨[], [], [], [], [], []⟩

/-- Whether an end dispatches a record of a kind next. -/
def meets (s : Speaker) (k : RecordKind) : Bool := s.inbound.head?.any (·.is k)

/-- The trail of the calls of an end after a turn of that end. -/
def ask (t : Trail) (p : Speaker) : Turn → Trail
  | .openCall _ _ => { t with opened := t.opened ++ [p.nextCaller] }
  | .sendCall i => { t with opened := t.opened.eraseIdx i, sent := t.sent ++ t.opened[i]?.toList }
  | .dispatch =>
    if meets p .reply then
      { t with replied := t.replied.tail, arrived := t.arrived ++ t.replied.head?.toList }
    else t
  | .receive i => { t with arrived := t.arrived.eraseIdx i }
  | .conclude _ _ | .sendReply _ | .release _ => t

/-- The trail of the calls of an end after a turn of the other end. -/
def serve (t : Trail) (q : Speaker) : Turn → Trail
  | .dispatch =>
    if meets q .call then
      { t with sent := t.sent.tail, jobs := t.jobs ++ t.sent.head?.toList }
    else t
  | .conclude i _ => { t with jobs := t.jobs.eraseIdx i, outbox := t.outbox ++ t.jobs[i]?.toList }
  | .sendReply i =>
    { t with outbox := t.outbox.eraseIdx i, replied := t.replied ++ t.outbox[i]?.toList }
  | .openCall _ _ | .sendCall _ | .receive _ | .release _ => t

end Trail

namespace Speaker

variable {p q p' q' : Speaker} {turn : Turn} {t : Trail}

/-- The callers that the tickets of records lead to. -/
def owners (p : Speaker) (l : List Record) : List (Option Nat) :=
  l.map fun r ↦ p.endpoint.pending.get? r.userData

/-- The tickets of the calls of an end agree with a trail. -/
structure Owned (p q : Speaker) (t : Trail) : Prop where
  opened : p.owners p.opened = t.opened.map some
  sent : p.owners (q.inbound.filter (·.is .call)) = t.sent.map some
  jobs : p.owners q.jobs = t.jobs.map some
  outbox : p.owners q.outbox = t.outbox.map some
  replied : p.owners (p.inbound.filter (·.is .reply)) = t.replied.map some
  arrived : p.arrived.map (·.1) = t.arrived

@[simp] theorem owners_append (p : Speaker) (l l' : List Record) :
    p.owners (l ++ l') = p.owners l ++ p.owners l' := List.map_append

/-- Calls have the same owners as long as their tickets have the same entries. -/
theorem owners_congr {l : List Record}
    (h : ∀ r ∈ l, p'.endpoint.pending.get? r.userData = p.endpoint.pending.get? r.userData) :
    p'.owners l = p.owners l := List.map_congr_left h

/-- A record leaves a list, and its caller the trail. -/
theorem owners_eraseIdx {l : List Record} {ks : List Nat} (h : p.owners l = ks.map some) (i : Nat) :
    p.owners (l.eraseIdx i) = (ks.eraseIdx i).map some := by
  rw [owners, ← List.eraseIdx_map, ← owners, h, List.eraseIdx_map]

/-- The caller of a record is where the record is. -/
theorem owners_getElem? {l : List Record} {ks : List Nat} (h : p.owners l = ks.map some) {i : Nat}
    {r : Record} (hi : l[i]? = some r) : p.owners [r] = ks[i]?.toList.map some := by
  have hget : (p.owners l)[i]? = (ks.map some)[i]? := by rw [h]
  rw [owners, List.getElem?_map, hi, List.getElem?_map] at hget
  rcases hk : ks[i]? with - | k
  · rw [hk] at hget
    cases hget
  · rw [hk] at hget
    exact congrArg (fun o ↦ [o]) (Option.some.inj hget)

/-- The first record leaves a list, and its caller the trail. -/
theorem owners_cons {l : List Record} {ks : List Nat} {r : Record}
    (h : p.owners (r :: l) = ks.map some) :
    p.owners l = ks.tail.map some ∧ p.owners [r] = ks.head?.toList.map some := by
  rcases ks with - | ⟨k, ks⟩
  · cases h
  · obtain ⟨hr, hl⟩ := List.cons.inj h
    exact ⟨hl, congrArg (fun o ↦ [o]) hr⟩

/-! ### Each turn keeps to the trail -/

/-- A ticket is not handed out again while its call awaits a reply. -/
theorem owners_push (hb : p.Balanced q) {l : List Record} {caller : Nat}
    (hf : (p.endpoint.pending.push caller).2.Fits) (hl : ∀ r ∈ l, r ∈ p.calls q)
    (hpush : p'.endpoint.pending = (p.endpoint.pending.push caller).2) :
    p'.owners l = p.owners l := by
  refine owners_congr ?_
  intro r hr
  rw [hpush, ShardedSlab.get?_push hb.pending_sound hf, if_neg]
  intro heq
  have hmem : r.userData ∈ p.tickets q := List.mem_map.2 ⟨r, hl r hr, rfl⟩
  have hused := (hb.tickets.mem_iff _).1 hmem
  rw [heq, ShardedSlab.get?_fst_push hb.pending_sound hf] at hused
  cases hused

/-- A ticket that is given back is that of no other call. -/
theorem owners_pop (hb : p.Balanced q) {l : List Record} {ticket : UInt64}
    (hperm : (p.tickets q).Perm (ticket :: p'.tickets q')) (hl : ∀ r ∈ l, r ∈ p'.calls q')
    (hpop : p'.endpoint.pending = (p.endpoint.pending.pop ticket).2) :
    p'.owners l = p.owners l := by
  have hnotin := (List.nodup_cons.1 (hperm.nodup_iff.1 hb.tickets.nodup)).1
  refine owners_congr ?_
  intro r hr
  rw [hpop, ShardedSlab.get?_pop hb.pending_sound, if_neg]
  intro heq
  exact hnotin (heq ▸ List.mem_map.2 ⟨r, hl r hr, rfl⟩)

namespace Owned

/-- A reply arrives at the caller that the trail has for it. -/
theorem arrive (ho : p.Owned q t) (hb : p.Balanced q) {reply : Record} {rest : List Record}
    {caller : Nat} (h : p.inbound = reply :: rest) (hk : reply.kind? = some .reply)
    (hpop : (p.endpoint.pending.pop reply.userData).1 = some caller)
    (hpending : p'.endpoint.pending = (p.endpoint.pending.pop reply.userData).2)
    (hopened : p'.opened = p.opened) (hinbound : p'.inbound = rest)
    (harrived : p'.arrived = p.arrived ++ [(caller, reply)]) :
    p'.Owned q { t with
      replied := t.replied.tail
      arrived := t.arrived ++ t.replied.head?.toList } := by
  have hreplied : p.inbound.filter (·.is .reply) = reply :: rest.filter (·.is .reply) := by
    simp [h, Record.is, hk]
  obtain ⟨hrest, hfirst⟩ := owners_cons (hreplied ▸ ho.replied)
  -- the ticket leads to one caller, whom the trail has for the first reply
  have hcaller : t.replied.head?.toList = [caller] := by
    have hget : p.owners [reply] = [caller].map some := by
      rw [List.map_singleton, ← hpop, ShardedSlab.fst_pop hb.pending_sound]
      rfl
    rw [hget] at hfirst
    exact (List.map_injective_iff.2 (fun _ _ ↦ Option.some.inj) hfirst).symm
  have hperm : (p.tickets q).Perm (reply.userData :: p'.tickets q) :=
    tickets_arrive h hk hopened hinbound
  have hold : ∀ l : List Record, (∀ r ∈ l, r ∈ p'.calls q) → p'.owners l = p.owners l :=
    fun l hl ↦ owners_pop hb hperm hl hpending
  refine ⟨?_, ?_, ?_, ?_, ?_, ?_⟩
  · exact (hold _ fun r hr ↦ mem_calls.2 (.inl hr)).trans (hopened ▸ ho.opened)
  · exact (hold _ fun r hr ↦ mem_calls.2 (.inr (.inl hr))).trans ho.sent
  · exact (hold _ fun r hr ↦ mem_calls.2 (.inr (.inr (.inl hr)))).trans ho.jobs
  · exact (hold _ fun r hr ↦ mem_calls.2 (.inr (.inr (.inr (.inl hr))))).trans ho.outbox
  · exact (hold _ fun r hr ↦ mem_calls.2 (.inr (.inr (.inr (.inr hr))))).trans (hinbound ▸ hrest)
  · rw [harrived, List.map_append, ho.arrived, hcaller]
    rfl

/-- The calls of the end that takes a turn. -/
theorem speak (ho : p.Owned q t) (hb : p.Balanced q) (hf : p'.Fits)
    (hstep : TurnStep p q turn p' q') : p'.Owned q' (t.ask p turn) := by
  cases hstep with
  | openCall callId address =>
    -- the new ticket is that of no call under way, so that the others stay as they are
    have hold : ∀ l : List Record, (∀ r ∈ l, r ∈ p.calls q) →
        (Conversation.openCall p callId address).owners l = p.owners l :=
      fun l hl ↦ owners_push hb hf.pending hl rfl
    have hnew : (p.endpoint.pending.push p.nextCaller).2.get?
        (p.endpoint.pending.push p.nextCaller).1 = some p.nextCaller := by
      rw [ShardedSlab.get?_push hb.pending_sound hf.pending, if_pos rfl]
    refine ⟨?_, ?_, ?_, ?_, ?_, ho.arrived⟩
    · show (Conversation.openCall p callId address).owners (p.opened ++ [_]) =
        (t.opened ++ [p.nextCaller]).map some
      rw [owners_append, hold _ fun r hr ↦ mem_calls.2 (.inl hr), ho.opened, List.map_append]
      exact congrArg (_ ++ [·]) hnew
    · exact (hold _ fun r hr ↦ mem_calls.2 (.inr (.inl hr))).trans ho.sent
    · exact (hold _ fun r hr ↦ mem_calls.2 (.inr (.inr (.inl hr)))).trans ho.jobs
    · exact (hold _ fun r hr ↦ mem_calls.2 (.inr (.inr (.inr (.inl hr))))).trans ho.outbox
    · exact (hold _ fun r hr ↦ mem_calls.2 (.inr (.inr (.inr (.inr hr))))).trans ho.replied
  | @sendCall i call h =>
    have hcall := hb.formed.opened _ (List.mem_of_getElem? h)
    have hsent : (q.inbound ++ [call]).filter (·.is .call) =
        q.inbound.filter (·.is .call) ++ [call] := by
      simp [Record.is, hcall]
    refine ⟨owners_eraseIdx ho.opened i, ?_, ho.jobs, ho.outbox, ho.replied, ho.arrived⟩
    show p.owners ((q.inbound ++ [call]).filter (·.is .call)) =
      (t.sent ++ t.opened[i]?.toList).map some
    rw [hsent, owners_append, ho.sent, owners_getElem? ho.opened h, List.map_append]
  | @serve _ rest h hk | @free _ rest _ h hk =>
    have ht : t.ask p .dispatch = t := by simp [Trail.ask, Trail.meets, h, Record.is, hk]
    have hreplied : p.inbound.filter (·.is .reply) = rest.filter (·.is .reply) := by
      simp [h, Record.is, hk]
    rw [ht]
    exact ⟨ho.opened, ho.sent, ho.jobs, ho.outbox, hreplied ▸ ho.replied, ho.arrived⟩
  | @arrive reply rest caller h hk hpop =>
    have ht : t.ask p .dispatch =
        { t with replied := t.replied.tail, arrived := t.arrived ++ t.replied.head?.toList } := by
      simp [Trail.ask, Trail.meets, h, Record.is, hk]
    rw [ht]
    exact ho.arrive hb h hk hpop rfl rfl rfl rfl
  | @ignore r _ report h hr =>
    exact absurd hr (hb.heedful r (h ▸ List.mem_cons_self) report)
  | conclude | concludeEmpty =>
    exact ⟨ho.opened, ho.sent, ho.jobs, ho.outbox, ho.replied, ho.arrived⟩
  | @sendReply i reply h =>
    have hreply := hb.formed.outbox _ (List.mem_of_getElem? h)
    have hsent : (q.inbound ++ [reply]).filter (·.is .call) = q.inbound.filter (·.is .call) := by
      simp [Record.is, hreply]
    exact ⟨ho.opened, hsent ▸ ho.sent, ho.jobs, ho.outbox, ho.replied, ho.arrived⟩
  | @receive i _ _ _ h =>
    refine ⟨ho.opened, ho.sent, ho.jobs, ho.outbox, ho.replied, ?_⟩
    show (p.arrived.eraseIdx i).map (·.1) = t.arrived.eraseIdx i
    rw [← ho.arrived, List.eraseIdx_map]
  | @release _ view h =>
    have hsent : (q.inbound ++ [Record.drop view.callId view.handle]).filter (·.is .call) =
        q.inbound.filter (·.is .call) := by
      simp [Record.is]
    exact ⟨ho.opened, hsent ▸ ho.sent, ho.jobs, ho.outbox, ho.replied, ho.arrived⟩
  | releaseEmpty => exact ⟨ho.opened, ho.sent, ho.jobs, ho.outbox, ho.replied, ho.arrived⟩

/-- The calls of the other end. -/
theorem listen (ho : q.Owned p t) (hp : p.Balanced q) (hstep : TurnStep p q turn p' q') :
    q'.Owned p' (t.serve p turn) := by
  cases hstep with
  | openCall | receive | releaseEmpty =>
    exact ⟨ho.opened, ho.sent, ho.jobs, ho.outbox, ho.replied, ho.arrived⟩
  | @sendCall _ call h =>
    have hcall := hp.formed.opened _ (List.mem_of_getElem? h)
    have hreplied : (q.inbound ++ [call]).filter (·.is .reply) = q.inbound.filter
        (·.is .reply) := by
      simp [Record.is, hcall]
    exact ⟨ho.opened, ho.sent, ho.jobs, ho.outbox, hreplied ▸ ho.replied, ho.arrived⟩
  | @serve call rest h hk =>
    have ht : t.serve p .dispatch =
        { t with sent := t.sent.tail, jobs := t.jobs ++ t.sent.head?.toList } := by
      simp [Trail.serve, Trail.meets, h, Record.is, hk]
    have hsent : p.inbound.filter (·.is .call) = call :: rest.filter (·.is .call) := by
      simp [h, Record.is, hk]
    -- calls arrive in the order in which they were sent
    obtain ⟨hrest, hfirst⟩ := owners_cons (hsent ▸ ho.sent)
    rw [ht]
    refine ⟨ho.opened, hrest, ?_, ho.outbox, ho.replied, ho.arrived⟩
    show q.owners (p.jobs ++ [call]) = (t.jobs ++ t.sent.head?.toList).map some
    rw [owners_append, ho.jobs, hfirst, List.map_append]
  | @arrive _ rest _ h hk | @free _ rest _ h hk =>
    have ht : t.serve p .dispatch = t := by simp [Trail.serve, Trail.meets, h, Record.is, hk]
    have hsent : p.inbound.filter (·.is .call) = rest.filter (·.is .call) := by
      simp [h, Record.is, hk]
    rw [ht]
    exact ⟨ho.opened, hsent ▸ ho.sent, ho.jobs, ho.outbox, ho.replied, ho.arrived⟩
  | @ignore r _ report h hr =>
    exact absurd hr (hp.heedful r (h ▸ List.mem_cons_self) report)
  | @conclude i call _ h | @concludeEmpty i call h =>
    refine ⟨ho.opened, ho.sent, owners_eraseIdx ho.jobs i, ?_, ho.replied, ho.arrived⟩
    show q.owners (p.outbox ++ [_]) = (t.outbox ++ t.jobs[i]?.toList).map some
    rw [owners_append, ho.outbox, List.map_append, ← owners_getElem? ho.jobs h]
    rfl
  | @sendReply i reply h =>
    have hreply := hp.formed.outbox _ (List.mem_of_getElem? h)
    have hreplied : (q.inbound ++ [reply]).filter (·.is .reply) =
        q.inbound.filter (·.is .reply) ++ [reply] := by
      simp [Record.is, hreply]
    refine ⟨ho.opened, ho.sent, ho.jobs, owners_eraseIdx ho.outbox i, ?_, ho.arrived⟩
    show q.owners ((q.inbound ++ [reply]).filter (·.is .reply)) =
      (t.replied ++ t.outbox[i]?.toList).map some
    rw [hreplied, owners_append, ho.replied, owners_getElem? ho.outbox h, List.map_append]
  | @release _ view h =>
    have hreplied : (q.inbound ++ [Record.drop view.callId view.handle]).filter (·.is .reply) =
        q.inbound.filter (·.is .reply) := by
      simp [Record.is]
    exact ⟨ho.opened, ho.sent, ho.jobs, ho.outbox, hreplied ▸ ho.replied, ho.arrived⟩

end Owned

end Speaker

end RingCall
