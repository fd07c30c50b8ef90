import RingCall.Proofs.Call.Turn
import RingCall.Proofs.Slab.Sharded

/-!
# What the slabs of an end list

An end has a slab for its calls and one for its responses. Its `tickets` are those of the calls that
await their reply, wherever the call or the reply is by now, and its `loans` are the handles of the
responses that are known elsewhere. A turn of the end changes a slab and its list alike
(`tickets_speak`, `loans_speak`), and a turn of the other end changes neither (`tickets_listen`,
`loans_listen`). So the slabs have in use just what is listed (`Balanced.speak`, `Balanced.listen`).

A record is passed over only if its ticket or its handle is not in use. While the slabs are balanced
this never happens (`Balanced.heedful`).
-/

namespace RingCall

namespace Speaker

variable {p q p' q' : Speaker} {turn : Turn}

/-- The calls of an end `p` that await their reply, as what they are by now: a call that was not
sent, one on its way to the end `q`, one accepted there, or a reply that was not sent or is on its
way. -/
def calls (p q : Speaker) : List Record :=
  p.opened ++ q.inbound.filter (·.is .call) ++ q.jobs ++ q.outbox ++ p.inbound.filter (·.is .reply)

/-- The records of an end's calls, wherever they are: open, on their way, being served, or answered.
-/
theorem mem_calls {r : Record} : r ∈ p.calls q ↔ r ∈ p.opened ∨ r ∈ q.inbound.filter (·.is .call) ∨
    r ∈ q.jobs ∨ r ∈ q.outbox ∨ r ∈ p.inbound.filter (·.is .reply) := by
  simp only [calls, List.mem_append, or_assoc]

/-- The tickets of the calls of an end that await their reply. -/
def tickets (p q : Speaker) : List UInt64 := (p.calls q).map (·.userData)

/-- The replies of an end `p` that nobody has looked at: not sent yet, on their way to the end `q`,
or there with their callers. -/
def replies (p q : Speaker) : List Record :=
  p.outbox ++ q.inbound.filter (·.is .reply) ++ q.arrived.map (·.2)

/-- The handles of an end `p` that are known elsewhere: from replies that nobody has looked at, from
views of replies, and from drops on their way back. A handle of 0 stands for none. -/
def loans (p q : Speaker) : List UInt64 :=
  ((p.replies q).map (·.next) ++ q.views.map (·.handle)).filter (· ≠ 0) ++
    (p.inbound.filter (·.is .drop)).map (·.userData)

/-- A list is what one of its members and the others make up. -/
theorem perm_cons_eraseIdx {β : Type} {l : List β} {i : Nat} {x : β} (h : l[i]? = some x) :
    l.Perm (x :: l.eraseIdx i) := by
  obtain ⟨hi, hx⟩ := List.getElem?_eq_some_iff.1 h
  exact hx ▸ (List.getElem_cons_eraseIdx_perm hi).symm

/-! ### Each turn preserves the kinds of the records -/

/-- The records of an end are of the kinds that their places are for. -/
structure Formed (p : Speaker) : Prop where
  opened : ∀ r ∈ p.opened, r.kind? = some .call
  outbox : ∀ r ∈ p.outbox, r.kind? = some .reply
  inbound : ∀ r ∈ p.inbound, r.kind? ≠ none

theorem forall_mem_concat {P : Record → Prop} {records : List Record} {r : Record}
    (h : ∀ x ∈ records, P x) (hr : P r) : ∀ x ∈ records ++ [r], P x :=
  List.forall_mem_append.2 ⟨h, List.forall_mem_singleton.2 hr⟩

/-- Each turn leaves records of the right kinds in the right places. -/
theorem Formed.step (hp : p.Formed) (hq : q.Formed) (hstep : TurnStep p q turn p' q') :
    p'.Formed ∧ q'.Formed := by
  cases hstep with
  | openCall callId address =>
    exact ⟨⟨forall_mem_concat hp.opened (Record.kind?_call _ _ _), hp.outbox, hp.inbound⟩, hq⟩
  | sendCall h =>
    have hcall := hp.opened _ (List.mem_of_getElem? h)
    exact ⟨⟨fun r hr ↦ hp.opened r (List.mem_of_mem_eraseIdx hr), hp.outbox, hp.inbound⟩,
      hq.opened, hq.outbox, forall_mem_concat hq.inbound (by rw [hcall]; exact nofun)⟩
  | serve h | arrive h | free h | ignore h =>
    exact ⟨⟨hp.opened, hp.outbox, fun r hr ↦ hp.inbound r (h ▸ List.mem_cons_of_mem _ hr)⟩, hq⟩
  | conclude | concludeEmpty =>
    exact ⟨⟨hp.opened, forall_mem_concat hp.outbox (Record.kind?_reply _ _ _ _), hp.inbound⟩, hq⟩
  | sendReply h =>
    have hreply := hp.outbox _ (List.mem_of_getElem? h)
    exact ⟨⟨hp.opened, fun r hr ↦ hp.outbox r (List.mem_of_mem_eraseIdx hr), hp.inbound⟩,
      hq.opened, hq.outbox, forall_mem_concat hq.inbound (by rw [hreply]; exact nofun)⟩
  | receive | releaseEmpty => exact ⟨⟨hp.opened, hp.outbox, hp.inbound⟩, hq⟩
  | @release _ view =>
    have hdrop := Record.kind?_drop view.callId view.handle
    exact ⟨⟨hp.opened, hp.outbox, hp.inbound⟩, hq.opened, hq.outbox,
      forall_mem_concat hq.inbound (by rw [hdrop]; exact nofun)⟩

/-! ### How a turn changes the lists -/

/-- No record that an end has yet to dispatch will be passed over. -/
def Heedful (p : Speaker) : Prop :=
  ∀ r ∈ p.inbound, ∀ report, (p.endpoint.dispatch r).1 ≠ .ignore report

/-- A turn of one end leaves the endpoint of the other alone. -/
theorem endpoint_listen (hstep : TurnStep p q turn p' q') : q'.endpoint = q.endpoint := by
  cases hstep <;> rfl

/-- The ticket of a reply that arrives is given back. -/
theorem tickets_arrive {reply : Record} {rest : List Record} (h : p.inbound = reply :: rest)
    (hk : reply.kind? = some .reply) (hopened : p'.opened = p.opened)
    (hinbound : p'.inbound = rest) :
    (p.tickets q).Perm (reply.userData :: p'.tickets q) := by
  refine List.perm_iff_count.2 ?_
  intro a
  simp [tickets, calls, Record.is, h, hk, hopened, hinbound, List.count_cons]
  omega

/-- A turn of an end changes its slab of tickets as it changes the list of its tickets. -/
theorem tickets_speak (hp : p.Formed) (hheed : p.Heedful) (hstep : TurnStep p q turn p' q') :
    p.endpoint.pending.Change (p.tickets q) p'.endpoint.pending (p'.tickets q') := by
  cases hstep with
  | openCall callId address =>
    refine .push p.nextCaller (List.perm_iff_count.2 ?_)
    intro a
    simp [tickets, calls, Conversation.openCall, Endpoint.openCall, List.count_cons]
    omega
  | sendCall h =>
    -- a call that is sent moves its ticket from one list to the next
    have hcall := hp.opened _ (List.mem_of_getElem? h)
    refine .keep (List.perm_iff_count.2 ?_)
    intro a
    have hc := ((perm_cons_eraseIdx h).map (·.userData)).count_eq a
    simp [tickets, calls, Record.is, hcall, List.count_cons] at hc ⊢
    omega
  | serve h hk | free h hk =>
    refine .keep (List.perm_iff_count.2 ?_)
    intro a
    simp [tickets, calls, Record.is, h, hk]
  -- the only turn that takes a ticket out
  | arrive h hk => exact .pop _ (tickets_arrive h hk rfl rfl)
  | @ignore r _ report h hr =>
    exact absurd hr (hheed r (h ▸ List.mem_cons_self) report)
  | conclude | concludeEmpty | receive | releaseEmpty => exact .keep (.refl _)
  | sendReply h =>
    have hreply := hp.outbox _ (List.mem_of_getElem? h)
    refine .keep (List.perm_iff_count.2 ?_)
    intro a
    simp [tickets, calls, Record.is, hreply]
  | release =>
    refine .keep (List.perm_iff_count.2 ?_)
    intro a
    simp [tickets, calls, Record.is]

/-- A turn of the peer only moves the tickets of an end from one place to another. -/
theorem tickets_listen (hp : p.Formed) (hheed : p.Heedful) (hstep : TurnStep p q turn p' q') :
    (q'.tickets p').Perm (q.tickets p) := by
  refine List.perm_iff_count.2 ?_
  intro a
  cases hstep with
  | openCall | receive | releaseEmpty => rfl
  | sendCall h =>
    have hcall := hp.opened _ (List.mem_of_getElem? h)
    simp [tickets, calls, Record.is, hcall]
  | serve h hk =>
    simp [tickets, calls, Record.is, h, hk, List.count_cons]
    omega
  | arrive h hk | free h hk => simp [tickets, calls, Record.is, h, hk]
  | @ignore r _ report h hr =>
    exact absurd hr (hheed r (h ▸ List.mem_cons_self) report)
  | conclude _ h | concludeEmpty h =>
    have hc := ((perm_cons_eraseIdx h).map (·.userData)).count_eq a
    simp [tickets, calls, List.count_cons] at hc ⊢
    omega
  | sendReply h =>
    have hreply := hp.outbox _ (List.mem_of_getElem? h)
    have hc := ((perm_cons_eraseIdx h).map (·.userData)).count_eq a
    simp [tickets, calls, Record.is, hreply, List.count_cons] at hc ⊢
    omega
  | release => simp [tickets, calls, Record.is]

/-- A turn of an end changes its slab of responses as it changes the list of its loans. -/
theorem loans_speak (hp : p.Formed) (hheed : p.Heedful) (hs : p.endpoint.stored.Sound)
    (hf : p'.endpoint.stored.Fits) (hstep : TurnStep p q turn p' q') :
    p.endpoint.stored.Change (p.loans q) p'.endpoint.stored (p'.loans q') := by
  cases hstep with
  | openCall | receive | releaseEmpty => exact .keep (.refl _)
  | sendCall h =>
    have hcall := hp.opened _ (List.mem_of_getElem? h)
    refine .keep (List.perm_iff_count.2 ?_)
    intro a
    simp [loans, replies, Record.is, hcall]
  | serve h hk | arrive h hk =>
    refine .keep (List.perm_iff_count.2 ?_)
    intro a
    simp [loans, replies, Record.is, h, hk]
  | @free drop _ _ h hk =>
    refine .pop drop.userData (List.perm_iff_count.2 ?_)
    intro a
    simp [loans, replies, Record.is, h, hk, List.count_cons]
    omega
  | @ignore r _ report h hr =>
    exact absurd hr (hheed r (h ▸ List.mem_cons_self) report)
  | conclude response h =>
    -- an empty reply has handle 0, so a loan never has
    have hne : (p.endpoint.stored.push response).1 ≠ 0 := ShardedSlab.fst_push_ne_zero hs hf
    refine .push response (List.perm_iff_count.2 ?_)
    intro a
    simp [loans, replies, hne, List.count_cons]
    omega
  | concludeEmpty =>
    refine .keep (List.perm_iff_count.2 ?_)
    intro a
    simp [loans, replies]
  | sendReply h =>
    have hreply := hp.outbox _ (List.mem_of_getElem? h)
    refine .keep (List.perm_iff_count.2 ?_)
    intro a
    have hc := (((perm_cons_eraseIdx h).map (·.next)).filter (· ≠ 0)).count_eq a
    simp [loans, replies, Record.is, hreply, List.filter_cons] at hc ⊢
    -- only a reply with a response moves a loan
    split at hc <;> simp_all [List.count_cons] <;> omega
  | release =>
    refine .keep (List.perm_iff_count.2 ?_)
    intro a
    simp [loans, replies, Record.is]

/-- A turn of the peer only moves the loans of an end from one place to another. -/
theorem loans_listen (hp : p.Formed) (hheed : p.Heedful) (hstep : TurnStep p q turn p' q') :
    (q'.loans p').Perm (q.loans p) := by
  refine List.perm_iff_count.2 ?_
  intro a
  cases hstep with
  | openCall | conclude | concludeEmpty => rfl
  | sendCall h =>
    have hcall := hp.opened _ (List.mem_of_getElem? h)
    simp [loans, replies, Record.is, hcall]
  | serve h hk | free h hk => simp [loans, replies, Record.is, h, hk]
  | @arrive reply _ _ h hk =>
    by_cases hz : reply.next = 0
    · simp [loans, replies, Record.is, h, hk, hz]
    · simp [loans, replies, Record.is, h, hk, hz, List.count_cons]
      omega
  | @ignore r _ report h hr =>
    exact absurd hr (hheed r (h ▸ List.mem_cons_self) report)
  | sendReply h =>
    have hreply := hp.outbox _ (List.mem_of_getElem? h)
    simp [loans, replies, Record.is, hreply]
  | @receive _ _ reply _ h =>
    -- a view of an empty reply has handle 0, as the reply has
    have hc := (((perm_cons_eraseIdx h).map (·.2.next)).filter (· ≠ 0)).count_eq a
    by_cases hz : reply.next = 0
    · simp [loans, replies, ReplyView.ofReply, Function.comp_def, hz] at hc ⊢
      omega
    · simp [loans, replies, ReplyView.ofReply, Function.comp_def, hz, List.count_cons] at hc ⊢
      omega
  | release h hne =>
    have hc := (((perm_cons_eraseIdx h).map (·.handle)).filter (· ≠ 0)).count_eq a
    simp [loans, replies, Record.is, hne, List.count_cons] at hc ⊢
    omega
  | releaseEmpty h hz =>
    have hc := (((perm_cons_eraseIdx h).map (·.handle)).filter (· ≠ 0)).count_eq a
    simp [loans, replies, hz] at hc ⊢
    omega

/-! ### The slabs are balanced -/

/-- The numbers of all slots of an end's slabs fit into handles. -/
structure Fits (p : Speaker) : Prop where
  pending : p.endpoint.pending.Fits
  stored : p.endpoint.stored.Fits

/-- **The invariant of an end.** Its slabs have just the tickets and the handles that are under
way. -/
structure Balanced (p q : Speaker) : Prop where
  formed : p.Formed
  pending_sound : p.endpoint.pending.Sound
  stored_sound : p.endpoint.stored.Sound
  tickets : p.endpoint.pending.Lists (p.tickets q)
  loans : p.endpoint.stored.Lists (p.loans q)

/-- A slab that fits after a turn did so before. -/
theorem Fits.of_step (hf : p'.Fits) (hstep : TurnStep p q turn p' q') : p.Fits := by
  obtain ⟨hpending, hstored⟩ := hf
  cases hstep with
  | openCall => exact ⟨hpending.of_push, hstored⟩
  | arrive => exact ⟨hpending.of_pop, hstored⟩
  | free => exact ⟨hpending, hstored.of_pop⟩
  | conclude => exact ⟨hpending, hstored.of_push⟩
  | sendCall | serve | ignore | concludeEmpty | sendReply | receive | release | releaseEmpty =>
    exact ⟨hpending, hstored⟩

namespace Balanced

/-- Each record on its way to an end means something there. -/
theorem heedful (hb : p.Balanced q) : p.Heedful := by
  intro r hr report
  rcases hk : r.kind? with - | - | - | -
  · exact absurd hk (hb.formed.inbound r hr)
  · rw [Endpoint.dispatch_call hk]
    nofun
  · have hmem : r.userData ∈ p.tickets q :=
      List.mem_map.2 ⟨r, List.mem_append_right _ (List.mem_filter.2 ⟨hr, Record.is_iff.2 hk⟩), rfl⟩
    obtain ⟨caller, hget⟩ := Option.isSome_iff_exists.1 ((hb.tickets.mem_iff _).1 hmem)
    rw [Endpoint.dispatch_reply hk (ShardedSlab.pop_of_get?_eq_some hb.pending_sound hget)]
    nofun
  · have hmem : r.userData ∈ p.loans q :=
      List.mem_append_right _
        (List.mem_map.2 ⟨r, List.mem_filter.2 ⟨hr, Record.is_iff.2 hk⟩, rfl⟩)
    obtain ⟨response, hget⟩ := Option.isSome_iff_exists.1 ((hb.loans.mem_iff _).1 hmem)
    rw [Endpoint.dispatch_drop hk (ShardedSlab.pop_of_get?_eq_some hb.stored_sound hget)]
    nofun

/-- The end that takes a turn stays balanced. -/
theorem speak (hb : p.Balanced q) (hq : q.Formed) (hf : p'.Fits) (hstep : TurnStep p q turn p' q') :
    p'.Balanced q' := by
  have htickets := tickets_speak hb.formed hb.heedful hstep
  have hloans := loans_speak hb.formed hb.heedful hb.stored_sound hf.stored hstep
  exact ⟨(hb.formed.step hq hstep).1, htickets.sound hb.pending_sound, hloans.sound hb.stored_sound,
    htickets.lists hb.pending_sound hf.pending hb.tickets,
    hloans.lists hb.stored_sound hf.stored hb.loans⟩

/-- The other end stays balanced. -/
theorem listen (hq : q.Balanced p) (hp : p.Balanced q) (hstep : TurnStep p q turn p' q') :
    q'.Balanced p' := by
  have hend := endpoint_listen hstep
  refine ⟨(hp.formed.step hq.formed hstep).2, ?_, ?_, ?_, ?_⟩
  · exact hend ▸ hq.pending_sound
  · exact hend ▸ hq.stored_sound
  · exact hend ▸ hq.tickets.perm (tickets_listen hp.formed hp.heedful hstep)
  · exact hend ▸ hq.loans.perm (loans_listen hp.formed hp.heedful hstep)

end Balanced

end Speaker

end RingCall
