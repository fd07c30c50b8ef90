import RingCall.Proofs.Link.Conservation
import RingCall.Proofs.Link.Rest

/-!
# Tickets

A producer whose record is parked can be given a ticket, which tells when the record has entered the
ring. What a ticket tells is true (`TicketJournal.tells_truth`), whatever is done with the link and
with the tickets: producers send records in each way, the drain thread goes on step by step, records
are taken, tickets are thrown away, and at last the write end is closed.

The ticket travels with its record. Records enter the ring in the order in which they were sent, so
those that were sent fall into three parts: the ones that have entered it, the ones that are parked,
and, once the write end is gone, the ones that were lost (`Truthful`). No two records have the same
ticket. So the tickets of the first part are those that have landed, and it is at the step that
moves a record from the second part to the first that its ticket lands.
-/

namespace RingCall

variable {α : Type}

/-- The ticket that a request comes with. -/
def Request.ticket? (r : Request α) : Option Nat := r.sent?.bind (·.1.ticket)

/-- The record that was stored last is the last one held, even if it overwrote another. -/
theorem Ring.getLast?_contents_of_push? {r r' : Ring α} {a : α} (hle : r.len ≤ r.capacity)
    (h : r.push? a = some r') : r'.contents.getLast? = some a := by
  have hr' := (push?_eq_some h).2
  have hlast : r'.slots (r'.slot (r'.control.head + UInt64.ofNat r.len.toNat)) = a := by
    rw [UInt64.ofNat_toNat, head_of_push? h, ← tail_eq, hr']
    exact if_pos rfl
  rw [contents, toNat_len_of_push? hle h, List.range_succ, List.map_append, List.map_singleton,
    List.getLast?_concat, hlast]

namespace Link

variable {l l' : Link α}

/-! ### What a request and a step of the drain thread do to records -/

/-- The record that a request sends. Its ticket is given out only if the record is parked. -/
def sends (l : Link α) (r : Request α) : List (Parked α) :=
  match r.sent? with
  | none => []
  | some (record, _) =>
    if (l.store? record.item).isSome then [{ record with ticket := none }] else [record]

/-- A request sends no ticket but its own, and that at most once. -/
theorem sublist_sends (l : Link α) (r : Request α) :
    ((l.sends r).filterMap (·.ticket)).Sublist r.ticket?.toList := by
  rw [sends, Request.ticket?]
  rcases r.sent? with - | ⟨record, wakes⟩
  · exact List.Sublist.slnil
  · show (List.filterMap _ (if _ then _ else _)).Sublist record.ticket.toList
    split
    · exact List.nil_sublist _
    · rw [List.filterMap_cons]
      cases record.ticket <;> exact List.Sublist.refl _

section Landed

variable (l : Link α)

@[simp] theorem landed_signalWake (f : IoError → Report) : (l.signalWake f).landed = l.landed := by
  rw [signalWake_eq]

@[simp] theorem landed_signalRoom (f : IoError → Report) : (l.signalRoom f).landed = l.landed := by
  rw [signalRoom_eq]

@[simp] theorem landed_fulfil (r : Request α) : (l.fulfil r).landed = l.landed := by
  unfold fulfil rouse park
  grind [landed_signalWake, landed_signalRoom]

@[simp] theorem landed_release : l.release.landed = l.landed := by
  rw [release]
  split <;> simp

@[simp] theorem landed_fetch : l.fetch.landed = l.landed := by
  rw [fetch]
  split <;> rfl

@[simp] theorem overflow_fetch : l.fetch.overflow = l.overflow := by
  rw [fetch]
  split <;> rfl

@[simp] theorem closing_release : l.release.closing = l.closing := by
  rw [release]
  split <;> simp

@[simp] theorem closing_fetch : l.fetch.closing = l.closing := by
  rw [fetch]
  split <;> rfl

end Landed

/-- The drain thread does not close the link. -/
theorem DrainStep.closing_eq (h : DrainStep l l') : l'.closing = l.closing := by
  cases h <;> simp [report]

/-- A request sends nothing, or its record is stored directly, or it is parked. -/
theorem fulfil_cases (l : Link α) (r : Request α) :
    (r.sent? = none ∧ l.ring.Alike (l.fulfil r).ring ∧ (l.fulfil r).overflow = l.overflow) ∨
    ∃ record wakes, r.sent? = some (record, wakes) ∧
      ((∃ stored, l.store? record.item = some stored ∧ stored.Alike (l.fulfil r).ring ∧
          (l.fulfil r).overflow = l.overflow) ∨
        (l.store? record.item = none ∧ l.ring.Alike (l.fulfil r).ring ∧
          (l.fulfil r).overflow = l.overflow ++ [record])) := by
  rw [fulfil]
  rcases hr : r.sent? with - | ⟨record, wakes⟩
  · exact .inl ⟨rfl, l.alike_rouse, l.overflow_rouse⟩
  · refine .inr ⟨record, wakes, rfl, ?_⟩
    rcases hs : l.store? record.item with - | stored
    · exact .inr ⟨rfl, by simpa only [hs] using l.alike_park record,
        by simpa only [hs] using l.overflow_park record⟩
    · refine .inl ⟨stored, rfl, ?_⟩
      simp only [hs]
      cases wakes with
      | false => exact ⟨.refl _, rfl⟩
      | true => exact ⟨alike_rouse { l with ring := stored }, overflow_rouse _⟩

/-- Of the records that a request sends, those that are stored directly overtake none that are
parked, and their tickets are not given out. -/
theorem exists_sends_eq (hle : l.ring.len ≤ l.ring.capacity) (r : Request α) :
    ∃ direct parked, l.sends r = direct ++ parked ∧ r.items = (direct ++ parked).map (·.item) ∧
      (direct = [] ∨ l.overflow = []) ∧ direct.filterMap (·.ticket) = [] ∧
      (l.fulfil r).ring.len.toNat = l.ring.len.toNat + direct.length ∧
      (l.fulfil r).overflow = l.overflow ++ parked := by
  rw [sends, Request.items]
  obtain ⟨hr, hring, hover⟩ | ⟨record, wakes, hr, hkept⟩ := l.fulfil_cases r
  · rw [hr, hover, hring.len_eq]
    exact ⟨[], [], rfl, rfl, .inl rfl, rfl, rfl, (List.append_nil _).symm⟩
  · rw [hr]
    obtain ⟨stored, hs, hring, hover⟩ | ⟨hs, hring, hover⟩ := hkept
    · obtain ⟨hnil, hpush⟩ := store?_eq_some hs
      rw [hover, hring.len_eq, Ring.toNat_len_of_push? hle hpush]
      exact ⟨[{ record with ticket := none }], [], by simp [hs], rfl, .inr hnil, rfl, rfl,
        (List.append_nil _).symm⟩
    · rw [hover, hring.len_eq]
      exact ⟨[], [record], by simp [hs], rfl, .inl rfl, rfl, rfl, rfl⟩

/-- The drain thread moves the first parked record into the ring, or leaves records alone. -/
theorem DrainStep.move_or_stay (h : DrainStep l l') :
    (∃ moved record rest, l.drain = .flushing moved ∧ l.overflow = record :: rest ∧
      l.ring.push? record.item = some l'.ring ∧ l'.overflow = rest ∧
      l'.landed = l.landed ++ record.ticket.toList) ∨
    (l'.ring.len = l.ring.len ∧ l'.overflow = l.overflow ∧ l'.landed = l.landed ∧
      ∀ moved, l.drain = .flushing moved → l.moveOne? = none) := by
  cases h with
  | move hd hover hpush => exact .inl ⟨_, _, _, hd, hover, hpush, rfl, rfl⟩
  | halt hd hm | skip hd hm => exact .inr ⟨rfl, rfl, rfl, fun _ _ ↦ hm⟩
  | wake hd => exact .inr ⟨by simp, by simp, by simp, fun _ hf ↦ absurd (hd.symm.trans hf) nofun⟩
  | start hd | finish hd | lock hd | lookBusy hd | lookIdle hd | rouse hd | clear hd | flag hd
  | checkFull hd | checkRoom hd | hear hd | fail hd =>
    exact .inr ⟨rfl, rfl, rfl, fun _ hf ↦ absurd (hd.symm.trans hf) nofun⟩

/-- A ticket that has landed is ready with success. -/
theorem await_of_hasLanded {t : Nat} (h : l.hasLanded t = true) : l.await t = .ready (.ok ()) :=
  if_pos h

/-- A ticket whose record is parked is waited for. -/
theorem await_of_parked {t : Nat} (h : l.hasLanded t = false) {record : Parked α}
    (hrecord : record ∈ l.overflow) (ht : record.ticket = some t) : l.await t = .blocked := by
  have hany : l.overflow.any (·.ticket == some t) = true :=
    List.any_eq_true.2 ⟨record, hrecord, beq_iff_eq.2 ht⟩
  rw [await, h, if_neg Bool.false_ne_true, if_pos hany]

/-- A ticket that has not landed and is not parked will never land. -/
theorem await_of_lost {t : Nat} (h : l.hasLanded t = false)
    (hnone : ∀ record ∈ l.overflow, record.ticket ≠ some t) :
    l.await t = .ready (.error .disconnected) := by
  have hany : ¬ l.overflow.any (·.ticket == some t) = true := by
    rw [List.any_eq_true]
    rintro ⟨record, hrecord, ht⟩
    exact hnone record hrecord (beq_iff_eq.1 ht)
  rw [await, h, if_neg Bool.false_ne_true, if_neg hany]

/-- What is parked can be thrown away. -/
theorem Accounts.scrap {ring : Ring α} {popped arrived : List α}
    (h : Accounts ring popped (arrived ++ l.overflow.map (·.item)) l) :
    Accounts ring popped arrived { l with overflow := [] } where
  capacity_eq := h.capacity_eq
  len_le := h.len_le
  head_eq := h.head_eq
  kept hlasts := (List.append_nil _).trans (List.append_cancel_right (h.kept hlasts))

end Link

/-! ### Links with tickets -/

/-- A link, what was done with it, and who waits for a record. -/
structure TicketJournal (α : Type) where
  link : Link α
  /-- The records taken, the first one first. -/
  popped : List α
  /-- The records sent, in the order in which their producers had the lock, each with the ticket
  that was given out for it. -/
  sent : List (Parked α)
  /-- The tickets that requests came with. -/
  issued : List Nat
  /-- The tickets that somebody holds. -/
  held : List Nat
  /-- The records that were parked when the write end went away. -/
  lost : List (Parked α)

/-- What is done, one after the other. -/
inductive TicketDeed (α : Type) where
  /-- A producer makes a request, as long as the write end is open, when nobody has the lock. -/
  | request (i : Nat) (r : Request α)
  /-- The drain thread goes on. -/
  | drain
  /-- The reader takes a record. -/
  | pop
  /-- The last producer leaves, and the drain thread is to end. -/
  | close
  /-- The drain thread has ended, and what is parked is thrown away. -/
  | scrap
  /-- A ticket is thrown away, at once or after its holder was told what became of the record. -/
  | discard (ticket : Nat)
  deriving DecidableEq, Repr

namespace TicketJournal

variable {ring : Ring α} {j j' : TicketJournal α} {arrived : List (Parked α)}

/-- A link that has just been opened. -/
def opened (ring : Ring α) (wake room : Signal) : TicketJournal α :=
  ⟨.opened ring wake room, [], [], [], [], []⟩

/-- Does one thing, if it can be done. A request with a ticket comes with a new one. -/
def perform? (j : TicketJournal α) : TicketDeed α → Option (TicketJournal α)
  | .request i r =>
    if j.link.holder.isSome || j.link.closing || r.ticket?.any j.issued.contains then none
    else some { j with
      link := (j.link.request i r).2
      sent := j.sent ++ j.link.sends r
      issued := j.issued ++ r.ticket?.toList
      held := j.held ++ (j.link.sends r).filterMap (·.ticket) }
  | .drain => j.link.stepDrain.map fun link ↦ { j with link }
  | .pop => some { j with link := j.link.pop.2, popped := j.popped ++ j.link.pop.1.toList }
  | .close => if j.link.closing then none else some { j with link := j.link.close }
  | .scrap =>
    if j.link.closing && j.link.drain == .ended then
      some { j with link := { j.link with overflow := [] }, lost := j.link.overflow ++ j.lost }
    else none
  | .discard t => if j.held.contains t then some { j with held := j.held.erase t } else none

/-- Does things one after another, if all of them can be done. -/
def run? (j : TicketJournal α) (deeds : List (TicketDeed α)) : Option (TicketJournal α) :=
  deeds.foldlM perform? j

/-- The number of records that have entered the ring. -/
def entered (j : TicketJournal α) : Nat := j.popped.length + j.link.ring.len.toNat

/-- What can be seen of a request that happened. -/
theorem perform?_request (h : j.perform? (.request i r) = some j') :
    j.link.holder = none ∧ j.link.closing = false ∧ (∀ t, r.ticket? = some t → t ∉ j.issued) ∧
      j' = { j with
        link := (j.link.fulfil r).setProducer i (.idle (some (j.link.answer r)))
        sent := j.sent ++ j.link.sends r
        issued := j.issued ++ r.ticket?.toList
        held := j.held ++ (j.link.sends r).filterMap (·.ticket) } := by
  rw [perform?] at h
  split at h
  · cases h
  · next hguard =>
    simp only [Bool.or_eq_true, not_or, Bool.not_eq_true, Option.isSome_eq_false_iff,
      Option.isNone_iff_eq_none] at hguard
    obtain ⟨⟨hfree, hopen⟩, hfresh⟩ := hguard
    refine ⟨hfree, hopen, fun t ht hmem ↦ ?_, ?_⟩
    · simp [ht, hmem] at hfresh
    · rw [← Option.some.inj h, Link.request_eq hfree]

/-! ### The invariant -/

/-- **The invariant.** The records sent are those that have entered the ring, those parked and those
lost, in this order, and each ticket was given out for one of them. -/
structure Truthful (ring : Ring α) (arrived : List (Parked α)) (j : TicketJournal α) : Prop where
  sent_eq : j.sent = arrived ++ (j.link.overflow ++ j.lost)
  entered_eq : j.entered = arrived.length
  landed_eq : j.link.landed = arrived.filterMap (·.ticket)
  nodup : (j.sent.filterMap (·.ticket)).Nodup
  issued : ∀ t ∈ j.sent.filterMap (·.ticket), t ∈ j.issued
  lost_eq : j.link.closing = false → j.lost = []
  accounts : j.link.Accounts ring j.popped (arrived.map (·.item) ++ j.link.overflow.map (·.item))

/-- All tickets of a link that has just been opened tell the truth. -/
theorem truthful_opened (hempty : ring.isEmpty = true) (wake room : Signal) :
    Truthful ring [] (opened ring wake room) where
  sent_eq := rfl
  entered_eq := by
    show 0 + ring.len.toNat = 0
    rw [Ring.isEmpty_iff.1 hempty]
    rfl
  landed_eq := rfl
  nodup := List.nodup_nil
  issued := nofun
  lost_eq _ := rfl
  accounts := .opened hempty wake room

namespace Truthful

/-- A request gives out its ticket for one record. -/
theorem tickets_request (h : Truthful ring arrived j) {r : Request α}
    (hfresh : ∀ t, r.ticket? = some t → t ∉ j.issued) :
    ((j.sent ++ j.link.sends r).filterMap (·.ticket)).Nodup ∧
      ∀ t ∈ (j.sent ++ j.link.sends r).filterMap (·.ticket), t ∈ j.issued ++ r.ticket?.toList := by
  have hsends := j.link.sublist_sends r
  have honce : r.ticket?.toList.Nodup := by cases r.ticket? <;> simp
  rw [List.filterMap_append]
  refine ⟨List.nodup_append.2 ⟨h.nodup, hsends.nodup honce, ?_⟩, fun t ht ↦ ?_⟩
  · rintro t ht _ ht' rfl
    exact hfresh t (Option.mem_toList.1 (hsends.subset ht')) (h.issued t ht)
  · exact List.mem_append.2 ((List.mem_append.1 ht).imp (h.issued t) fun ht ↦ hsends.subset ht)

/-- Tickets tell the truth after a request. -/
theorem request (h : Truthful ring arrived j) {i : Nat} {r : Request α}
    (hstep : j.perform? (.request i r) = some j') : ∃ more, Truthful ring (arrived ++ more) j' := by
  obtain ⟨hfree, hopen, hfresh, rfl⟩ := perform?_request hstep
  obtain ⟨hnodup, hissued⟩ := h.tickets_request hfresh
  obtain ⟨direct, parked, hsends, hitems, hnone, hticket, hlen, hover⟩ :=
    Link.exists_sends_eq h.accounts.len_le r
  -- what is stored directly comes after what has arrived, since nothing is parked
  have hswap : j.link.overflow ++ direct = direct ++ j.link.overflow := by
    rcases hnone with rfl | hnil
    · exact List.append_nil _
    · rw [hnil]
      exact (List.append_nil _).symm
  have hlost := h.lost_eq hopen
  refine ⟨direct, ?_, ?_, ?_, hnodup, hissued, fun _ ↦ hlost, ?_⟩
  · show j.sent ++ j.link.sends r = arrived ++ direct ++ ((j.link.fulfil r).overflow ++ j.lost)
    rw [h.sent_eq, hsends, hover, hlost, List.append_nil, List.append_nil, List.append_assoc,
      List.append_assoc, ← List.append_assoc _ direct, hswap, List.append_assoc]
  · show j.popped.length + (j.link.fulfil r).ring.len.toNat = _
    rw [hlen, List.length_append, ← h.entered_eq, entered, Nat.add_assoc]
  · show (j.link.fulfil r).landed = _
    rw [Link.landed_fulfil, List.filterMap_append, hticket, List.append_nil, h.landed_eq]
  · have haccounts := h.accounts.fulfil r
    have hsent : arrived.map (·.item) ++ j.link.overflow.map (·.item) ++ r.items =
        (arrived ++ direct).map (·.item) ++ (j.link.fulfil r).overflow.map (·.item) := by
      rw [hitems, hover, ← List.map_append, ← List.map_append, ← List.map_append, List.append_assoc,
        ← List.append_assoc _ direct, hswap, List.append_assoc, List.append_assoc]
    rw [hsent] at haccounts
    exact haccounts.congr (.refl _) rfl

/-- Nothing is sent, and what has arrived, was parked or was lost stays so. -/
theorem stay (h : Truthful ring arrived j) (hsent : j'.sent = j.sent)
    (hissued : j'.issued = j.issued)
    (hparked : j'.link.overflow ++ j'.lost = j.link.overflow ++ j.lost)
    (hentered : j'.entered = j.entered) (hlanded : j'.link.landed = j.link.landed)
    (hopen : j'.link.closing = false → j'.lost = [])
    (haccounts :
      j'.link.Accounts ring j'.popped (arrived.map (·.item) ++ j'.link.overflow.map (·.item))) :
    Truthful ring arrived j' where
  sent_eq := by rw [hsent, hparked, h.sent_eq]
  entered_eq := hentered.trans h.entered_eq
  landed_eq := hlanded.trans h.landed_eq
  nodup := hsent ▸ h.nodup
  issued := by
    rw [hsent, hissued]
    exact h.issued
  lost_eq := hopen
  accounts := haccounts

/-- They tell the truth when parked records enter the ring. -/
theorem drain (h : Truthful ring arrived j) (hstep : j.perform? .drain = some j') :
    ∃ more, Truthful ring (arrived ++ more) j' := by
  obtain ⟨l', hl, rfl⟩ := Option.map_eq_some_iff.1 hstep
  have hdrain := Link.DrainStep.of_eq hl
  have haccounts := h.accounts.drainStep hdrain
  have hopen : l'.closing = false → j.lost = [] := fun ho ↦ h.lost_eq (hdrain.closing_eq ▸ ho)
  obtain ⟨moved, record, rest, -, hover, hpush, hover', hlanded⟩ | ⟨hlen, hover, hlanded, -⟩ :=
    hdrain.move_or_stay
  · -- the first parked record is the next one to arrive
    refine ⟨[record], ?_, ?_, ?_, h.nodup, h.issued, hopen, ?_⟩
    · show j.sent = _ ++ (l'.overflow ++ j.lost)
      rw [h.sent_eq, hover, hover', List.append_assoc]
      rfl
    · show j.popped.length + l'.ring.len.toNat = _
      rw [Ring.toNat_len_of_push? h.accounts.len_le hpush, List.length_append,
        ← h.entered_eq, entered, Nat.add_assoc]
      rfl
    · show l'.landed = _
      rw [hlanded, h.landed_eq, List.filterMap_append, List.filterMap_cons]
      cases record.ticket <;> rfl
    · show Link.Accounts ring j.popped (_ ++ l'.overflow.map _) l'
      rw [hover, List.map_cons] at haccounts
      rwa [hover', List.map_append, List.append_assoc]
  · refine ⟨[], ?_⟩
    rw [List.append_nil]
    refine h.stay rfl rfl (congrArg (· ++ j.lost) hover) ?_ hlanded hopen ?_
    · show j.popped.length + l'.ring.len.toNat = _
      rw [hlen, entered]
    · show Link.Accounts ring j.popped (_ ++ l'.overflow.map _) l'
      rwa [hover]

/-- They tell the truth when a record is popped. -/
theorem pop (h : Truthful ring arrived j) (hstep : j.perform? .pop = some j') :
    Truthful ring arrived j' := by
  obtain rfl := Option.some.inj hstep
  have hlink := j.link.pop_eq
  have hring : j.link.fetch.ring.Alike j.link.pop.2.ring := by
    rw [hlink]
    exact Link.alike_release _
  have hover : j.link.pop.2.overflow = j.link.overflow := by simp [hlink]
  have hlanded : j.link.pop.2.landed = j.link.landed := by simp [hlink]
  have hclosing : j.link.pop.2.closing = j.link.closing := by simp [hlink]
  have hgot : j.link.pop.1 = j.link.ring.pop?.map (·.1) := by rw [hlink]
  refine h.stay rfl rfl (congrArg (· ++ j.lost) hover) ?_ hlanded
    (fun ho ↦ h.lost_eq (hclosing ▸ ho)) ?_
  · show (j.popped ++ j.link.pop.1.toList).length + j.link.pop.2.ring.len.toNat = _
    rw [hgot, hring.len_eq, List.length_append, entered]
    rcases hpop : j.link.ring.pop? with - | ⟨item, rest⟩
    · simp [Link.fetch, hpop]
    · have hlen := Ring.toNat_len_of_pop? hpop
      simp only [Link.fetch, hpop, Option.map_some, Option.toList_some, List.length_singleton]
      omega
  · show Link.Accounts ring (j.popped ++ j.link.pop.1.toList) (_ ++ j.link.pop.2.overflow.map _) _
    rw [hover, hgot]
    exact h.accounts.fetch.congr hring (hover.trans (Link.overflow_fetch _).symm)

/-- They tell the truth when the link is closed. -/
theorem close (h : Truthful ring arrived j) (hstep : j.perform? .close = some j') :
    Truthful ring arrived j' := by
  rw [perform?] at hstep
  split at hstep
  · cases hstep
  · obtain rfl := Option.some.inj hstep
    have hring : j.link.ring.Alike j.link.close.ring := by
      simpa [Link.close] using Ring.Alike.refl _
    have hover : j.link.close.overflow = j.link.overflow := by simp [Link.close]
    refine h.stay rfl rfl (congrArg (· ++ j.lost) hover) ?_ (by simp [Link.close]) ?_ ?_
    · show j.popped.length + j.link.close.ring.len.toNat = _
      rw [hring.len_eq, entered]
    · intro hopen
      simp [Link.close] at hopen
    · show Link.Accounts ring j.popped (_ ++ j.link.close.overflow.map _) j.link.close
      rw [hover]
      exact h.accounts.congr hring hover

/-- They tell the truth when parked records are thrown away. -/
theorem scrap (h : Truthful ring arrived j) (hstep : j.perform? .scrap = some j') :
    Truthful ring arrived j' := by
  rw [perform?] at hstep
  split at hstep
  · next hguard =>
    obtain rfl := Option.some.inj hstep
    rw [Bool.and_eq_true] at hguard
    refine h.stay rfl rfl rfl rfl rfl (fun hopen ↦ ?_) ?_
    · exact absurd (hguard.1.symm.trans hopen) nofun
    · show Link.Accounts ring j.popped (_ ++ List.map _ []) { j.link with overflow := [] }
      rw [List.map_nil, List.append_nil]
      exact h.accounts.scrap
  · cases hstep

/-- They tell the truth when a ticket is given up. -/
theorem discard (h : Truthful ring arrived j) {t : Nat}
    (hstep : j.perform? (.discard t) = some j') :
    Truthful ring arrived j' := by
  rw [perform?] at hstep
  split at hstep
  · obtain rfl := Option.some.inj hstep
    exact h.stay rfl rfl rfl rfl rfl h.lost_eq h.accounts
  · cases hstep

/-- Whatever is done, records only arrive. -/
theorem perform (h : Truthful ring arrived j) {deed : TicketDeed α}
    (hstep : j.perform? deed = some j') : ∃ more, Truthful ring (arrived ++ more) j' := by
  have hstays (hj : Truthful ring arrived j') : ∃ more, Truthful ring (arrived ++ more) j' :=
    ⟨[], by rwa [List.append_nil]⟩
  cases deed with
  | request i r => exact h.request hstep
  | drain => exact h.drain hstep
  | pop => exact hstays (h.pop hstep)
  | close => exact hstays (h.close hstep)
  | scrap => exact hstays (h.scrap hstep)
  | discard t => exact hstays (h.discard hstep)

/-- **They tell the truth after any deeds.** -/
theorem run (h : Truthful ring arrived j) {deeds : List (TicketDeed α)}
    (hrun : j.run? deeds = some j') :
    ∃ more, Truthful ring (arrived ++ more) j' := by
  let P : TicketJournal α → Prop := fun j ↦ ∃ more, Truthful ring (arrived ++ more) j
  have hstep (s t : TicketJournal α) (deed : TicketDeed α) (hst : s.perform? deed = some t)
    (hs : P s) :
      P t := by
    obtain ⟨more, hs⟩ := hs
    obtain ⟨more', ht⟩ := hs.perform hst
    exact ⟨more ++ more', by rwa [← List.append_assoc]⟩
  exact foldlM_preserves (P := P) (fun deed _ s t ↦ hstep s t deed) hrun
    ⟨[], by rwa [List.append_nil]⟩

end Truthful

/-! ### What a ticket tells -/

/-- What was sent before a deed has been sent after it. -/
theorem sent_prefix_perform {deed : TicketDeed α} (hstep : j.perform? deed = some j') :
    j.sent <+: j'.sent := by
  cases deed with
  | request i r =>
    obtain ⟨-, -, -, rfl⟩ := perform?_request hstep
    exact List.prefix_append _ _
  | drain =>
    obtain ⟨l', -, rfl⟩ := Option.map_eq_some_iff.1 hstep
    exact List.prefix_refl _
  | pop =>
    obtain rfl := Option.some.inj hstep
    exact List.prefix_refl _
  | close | scrap | discard =>
    rw [perform?] at hstep
    split at hstep <;> cases hstep
    exact List.prefix_refl _

/-- What was sent before a run has been sent after it. -/
theorem sent_prefix_run {deeds : List (TicketDeed α)} (hrun : j.run? deeds = some j') :
    j.sent <+: j'.sent :=
  foldlM_preserves (P := fun s ↦ j.sent <+: s.sent)
    (fun _ _ _ _ hst hs ↦ hs.trans (sent_prefix_perform hst)) hrun (List.prefix_refl _)

/-- Tickets land at no other deed than a step of the drain thread. -/
theorem landed_eq_of_ne_drain {deed : TicketDeed α} (hstep : j.perform? deed = some j')
    (hne : deed ≠ .drain) : j'.link.landed = j.link.landed := by
  cases deed with
  | request i r =>
    obtain ⟨-, -, -, rfl⟩ := perform?_request hstep
    exact j.link.landed_fulfil r
  | drain => exact absurd rfl hne
  | pop =>
    obtain rfl := Option.some.inj hstep
    simp [Link.pop_eq]
  | close | scrap | discard =>
    rw [perform?] at hstep
    split at hstep <;> cases hstep
    simp [Link.close]

namespace Truthful

/-- A ticket belongs to one record only. -/
theorem not_mem_both {xs ys : List (Parked α)} (hnodup : ((xs ++ ys).filterMap (·.ticket)).Nodup)
    {record other : Parked α} (hx : record ∈ xs) (hy : other ∈ ys) {t : Nat}
    (ht : record.ticket = some t) : other.ticket ≠ some t := by
  intro ht'
  rw [List.filterMap_append, List.nodup_append] at hnodup
  exact hnodup.2.2 t (List.mem_filterMap.2 ⟨record, hx, ht⟩) t
    (List.mem_filterMap.2 ⟨other, hy, ht'⟩) rfl

/-- Nothing enters the ring that was not sent. -/
theorem entered_le (h : Truthful ring arrived j) : j.entered ≤ j.sent.length := by
  rw [h.entered_eq, h.sent_eq, List.length_append]
  exact Nat.le_add_right _ _

/-- All that was sent has entered the ring when nothing is parked and nothing was lost. -/
theorem entered_eq_length (h : Truthful ring arrived j) (hover : j.link.overflow = [])
    (hlost : j.lost = []) : j.entered = j.sent.length := by
  rw [h.entered_eq, h.sent_eq, hover, hlost, List.append_nil, List.append_nil]

/-- A ticket has landed if its record has arrived. -/
theorem hasLanded_iff_exists (h : Truthful ring arrived j) {t : Nat} :
    j.link.hasLanded t = true ↔ ∃ record ∈ arrived, record.ticket = some t := by
  rw [Link.hasLanded, h.landed_eq, List.contains_iff_mem, List.mem_filterMap]

/-- A record with a ticket has arrived, or is parked, or was lost, and its ticket says which. -/
theorem fate (h : Truthful ring arrived j) {k : Nat} {item : α} {t : Nat}
    (hk : j.sent[k]? = some ⟨item, some t⟩) :
    (k < j.entered ∧ j.link.hasLanded t = true ∧ j.link.await t = .ready (.ok ()) ∧
      ⟨item, some t⟩ ∉ j.link.overflow ∧ ⟨item, some t⟩ ∉ j.lost) ∨
    (¬ k < j.entered ∧ j.link.hasLanded t = false ∧ j.link.await t = .blocked ∧
      ⟨item, some t⟩ ∈ j.link.overflow ∧ ⟨item, some t⟩ ∉ j.lost) ∨
    (¬ k < j.entered ∧ j.link.hasLanded t = false ∧
      j.link.await t = .ready (.error .disconnected) ∧
      ⟨item, some t⟩ ∉ j.link.overflow ∧ ⟨item, some t⟩ ∈ j.lost) := by
  have hnodup := h.nodup
  rw [h.sent_eq] at hk hnodup
  rw [h.entered_eq]
  -- what was sent is what has arrived, then what is parked, then what was lost
  by_cases hlt : k < arrived.length
  · rw [List.getElem?_append_left hlt] at hk
    have hmem := List.mem_of_getElem? hk
    have hlanded := h.hasLanded_iff_exists.2 ⟨_, hmem, rfl⟩
    refine .inl ⟨hlt, hlanded, Link.await_of_hasLanded hlanded, fun hp ↦ ?_, fun hl ↦ ?_⟩
    · exact not_mem_both hnodup hmem (List.mem_append_left _ hp) rfl rfl
    · exact not_mem_both hnodup hmem (List.mem_append_right _ hl) rfl rfl
  · rw [List.getElem?_append_right (Nat.not_lt.1 hlt)] at hk
    have hmem := List.mem_of_getElem? hk
    have hlanded : j.link.hasLanded t = false := by
      rw [Bool.eq_false_iff, ne_eq, h.hasLanded_iff_exists]
      rintro ⟨record, hrecord, hticket⟩
      exact not_mem_both hnodup hrecord hmem hticket rfl
    have hrest : ((j.link.overflow ++ j.lost).filterMap (·.ticket)).Nodup := by
      rw [List.filterMap_append] at hnodup
      exact (List.nodup_append.1 hnodup).2.1
    rcases List.mem_append.1 hmem with hp | hl
    · have hawait := Link.await_of_parked hlanded hp rfl
      exact .inr (.inl ⟨hlt, hlanded, hawait, hp, fun hl ↦ not_mem_both hrest hp hl rfl rfl⟩)
    · have hnone (record : Parked α) (hrecord : record ∈ j.link.overflow) :
        record.ticket ≠ some t :=
        fun ht ↦ not_mem_both hrest hrecord hl ht rfl
      have hawait := Link.await_of_lost hlanded hnone
      exact .inr (.inr ⟨hlt, hlanded, hawait, fun hp ↦ hnone _ hp rfl, hl⟩)

/-- A ticket has landed if the position of its record is among those that have entered the ring. -/
theorem hasLanded_iff (h : Truthful ring arrived j) {k : Nat} {item : α} {t : Nat}
    (hk : j.sent[k]? = some ⟨item, some t⟩) : j.link.hasLanded t = true ↔ k < j.entered := by
  obtain ⟨hlt, hlanded, -⟩ | ⟨hlt, hlanded, -⟩ | ⟨hlt, hlanded, -⟩ :=
    h.fate hk <;> simp [hlt, hlanded]

/-- A ticket lands at the step that moves its record, which is the first one parked, into the
ring. -/
theorem lands_iff (h : Truthful ring arrived j) {k : Nat} {item : α} {t : Nat}
    (hk : j.sent[k]? = some ⟨item, some t⟩) (hnot : j.link.hasLanded t = false)
    {deed : TicketDeed α} (hstep : j.perform? deed = some j') :
    j'.link.hasLanded t = true ↔ deed = .drain ∧ (∃ moved, j.link.drain = .flushing moved) ∧
      j.link.overflow.head? = some ⟨item, some t⟩ ∧ j.link.ring.push? item = some j'.link.ring := by
  have hbefore : ¬ k < j.entered := fun hlt ↦ by
    rw [(h.hasLanded_iff hk).2 hlt] at hnot
    cases hnot
  constructor
  · intro hland
    by_cases hdeed : deed = .drain
    · subst hdeed
      obtain ⟨more, h'⟩ := h.drain hstep
      obtain ⟨l', hl, rfl⟩ := Option.map_eq_some_iff.1 hstep
      have hafter : k < j.popped.length + l'.ring.len.toNat := (h'.hasLanded_iff hk).1 hland
      obtain ⟨moved, record, rest, hd, hover, hpush, -⟩ | ⟨hlen, -⟩ :=
        (Link.DrainStep.of_eq hl).move_or_stay
      · -- one record has arrived, which can only be this one
        rw [Ring.toNat_len_of_push? h.accounts.len_le hpush, ← Nat.add_assoc] at hafter
        have hat : k = arrived.length := by
          rw [entered] at hbefore
          rw [← h.entered_eq, entered]
          omega
        rw [h.sent_eq, hat, List.getElem?_append_right (Nat.le_refl _), Nat.sub_self, hover] at hk
        obtain rfl : record = ⟨item, some t⟩ := Option.some.inj hk
        exact ⟨rfl, ⟨moved, hd⟩, by rw [hover]; rfl, hpush⟩
      · rw [hlen] at hafter
        exact absurd hafter hbefore
    · rw [Link.hasLanded, landed_eq_of_ne_drain hstep hdeed] at hland
      exact absurd (hnot.symm.trans hland) nofun
  · rintro ⟨rfl, ⟨moved, hd⟩, hhead, hpush⟩
    obtain ⟨l', hl, rfl⟩ := Option.map_eq_some_iff.1 hstep
    obtain ⟨-, record, rest, -, hover, -, -, hlanded⟩ | ⟨-, -, -, hnone⟩ :=
      (Link.DrainStep.of_eq hl).move_or_stay
    · rw [hover] at hhead
      obtain rfl : record = ⟨item, some t⟩ := Option.some.inj hhead
      simp [Link.hasLanded, hlanded]
    · obtain ⟨rest, hover⟩ := List.head?_eq_some_iff.1 hhead
      have hmove := hnone moved hd
      rw [Link.moveOne?, hover] at hmove
      simp [hpush] at hmove

/-- A producer is told that its record is in the ring, and it is the last one there, or it is given
its ticket, and the record has not arrived. -/
theorem told_pushAwaited (h : Truthful ring arrived j) {i : Nat} {item : α} {t : Nat}
    (hstep : j.perform? (.request i (.pushAwaited item t)) = some j') :
    ((j.link.request i (.pushAwaited item t)).1 = some .stored ∧ j'.entered = j'.sent.length ∧
      j'.link.ring.contents.getLast? = some item) ∨
    ((j.link.request i (.pushAwaited item t)).1 = some (.parked (some t)) ∧
      j'.sent[j.sent.length]? = some ⟨item, some t⟩ ∧ j'.entered ≤ j.sent.length) := by
  obtain ⟨more, h'⟩ := h.request hstep
  obtain ⟨hfree, hopen, -, rfl⟩ := perform?_request hstep
  have hlost := h.lost_eq hopen
  rw [Link.request_eq hfree]
  obtain ⟨hr, -⟩ | ⟨record, wakes, hr, hkept⟩ := j.link.fulfil_cases (.pushAwaited item t)
  · cases hr
  · obtain ⟨rfl, rfl⟩ := Prod.mk.inj (Option.some.inj hr)
    obtain ⟨stored, hs, hring, hover⟩ | ⟨hs, hring, hover⟩ := hkept
    · obtain ⟨hnil, hpush⟩ := Link.store?_eq_some hs
      refine .inl ⟨by simp [Link.answer, Request.sent?, hs],
        h'.entered_eq_length (hover.trans hnil) hlost, ?_⟩
      · show (j.link.fulfil (.pushAwaited item t)).ring.contents.getLast? = some item
        rw [hring.contents_eq]
        exact Ring.getLast?_contents_of_push? h.accounts.len_le hpush
    · refine .inr ⟨by simp [Link.answer, Request.sent?, hs], ?_, ?_⟩
      · simp [Link.sends, Request.sent?, hs]
      · show j.popped.length + (j.link.fulfil (.pushAwaited item t)).ring.len.toNat ≤ _
        rw [hring.len_eq]
        exact h.entered_le

/-- While the slots stay in turn, the records that have arrived are those taken and those that the
ring holds. -/
theorem kept (h : Truthful ring arrived j) (hlasts : ring.Lasts j.entered) :
    j.popped ++ j.link.ring.contents = (j.sent.take j.entered).map (·.item) := by
  have hkept := List.append_cancel_right (h.accounts.kept hlasts)
  rw [hkept, h.sent_eq, h.entered_eq, List.take_left]

/-- What has not entered the ring is parked or was lost. -/
theorem parked (h : Truthful ring arrived j) :
    j.sent.drop j.entered = j.link.overflow ++ j.lost := by
  rw [h.sent_eq, h.entered_eq, List.drop_left]

end Truthful

/-- **Tickets tell the truth.** Whatever is done with a link on an empty ring and with its tickets:

* The records that have arrived in the ring come before those that are parked or lost, so that with
  a record all those have arrived that were parked before it. They are the ones taken and the ones
  in the ring, one by one, as long as the slots stay in turn (`Ring.Lasts`): always if the capacity
  divides the size of a word, and otherwise while no counter has wrapped around. Nothing else needs
  this.
* Who sends a record and wants a ticket is told that the record is stored exactly if it is then in
  the ring, and is given the ticket otherwise.
* A ticket has landed exactly if its record has arrived, and that stays so. It lands at the step of
  the drain thread that stores this very record, and at no other. To wait for it succeeds exactly if
  the record has arrived, fails exactly if the record was lost, and takes longer while the record is
  parked. -/
theorem tells_truth (hempty : ring.isEmpty = true) (wake room : Signal)
    {deeds : List (TicketDeed α)} (hrun : (opened ring wake room).run? deeds = some j) :
    (j.entered ≤ j.sent.length ∧ j.sent.drop j.entered = j.link.overflow ++ j.lost ∧
      (ring.Lasts j.entered →
        j.popped ++ j.link.ring.contents = (j.sent.take j.entered).map (·.item))) ∧
    (∀ i item t j', j.perform? (.request i (.pushAwaited item t)) = some j' →
      ((j.link.request i (.pushAwaited item t)).1 = some .stored ∧ j'.entered = j'.sent.length ∧
        j'.link.ring.contents.getLast? = some item) ∨
      ((j.link.request i (.pushAwaited item t)).1 = some (.parked (some t)) ∧
        j'.sent[j.sent.length]? = some ⟨item, some t⟩ ∧ j'.entered ≤ j.sent.length)) ∧
    ∀ k item t, j.sent[k]? = some ⟨item, some t⟩ →
      (j.link.hasLanded t = true ↔ k < j.entered) ∧
      (j.link.await t = .ready (.ok ()) ↔ k < j.entered) ∧
      (j.link.await t = .blocked ↔ ⟨item, some t⟩ ∈ j.link.overflow) ∧
      (j.link.await t = .ready (.error .disconnected) ↔ ⟨item, some t⟩ ∈ j.lost) ∧
      (∀ more j', j.run? more = some j' →
        j'.sent[k]? = some ⟨item, some t⟩ ∧
        (j.link.hasLanded t = true → j'.link.hasLanded t = true)) ∧
      ∀ deed j', j.perform? deed = some j' → j.link.hasLanded t = false →
        (j'.link.hasLanded t = true ↔ deed = .drain ∧ (∃ moved, j.link.drain = .flushing moved) ∧
          j.link.overflow.head? = some ⟨item, some t⟩ ∧
          j.link.ring.push? item = some j'.link.ring) := by
  obtain ⟨arrived, h⟩ := (truthful_opened hempty wake room).run hrun
  rw [List.nil_append] at h
  refine ⟨⟨h.entered_le, h.parked, h.kept⟩, fun i item t j' hstep ↦ h.told_pushAwaited hstep, ?_⟩
  intro k item t hk
  have hlater (more : List (TicketDeed α)) (j' : TicketJournal α) (hmore : j.run? more = some j') :
      j'.sent[k]? = some ⟨item, some t⟩ ∧
        (j.link.hasLanded t = true → j'.link.hasLanded t = true) := by
    obtain ⟨later, h'⟩ := h.run hmore
    have hk' : j'.sent[k]? = some ⟨item, some t⟩ := by
      obtain ⟨rest, hsent⟩ := sent_prefix_run hmore
      rw [← hsent, List.getElem?_append_left (List.getElem?_eq_some_iff.1 hk).1, hk]
    refine ⟨hk', fun hlanded ↦ (h'.hasLanded_iff hk').2 ?_⟩
    have hlt := (h.hasLanded_iff hk).1 hlanded
    rw [h'.entered_eq, List.length_append, ← h.entered_eq]
    omega
  refine ⟨h.hasLanded_iff hk, ?_, ?_, ?_, hlater, fun deed j' hstep hnot ↦
    h.lands_iff hk hnot hstep⟩
  all_goals
    obtain ⟨hlt, -, hawait, hover, hlost⟩ | ⟨hlt, -, hawait, hover, hlost⟩ |
      ⟨hlt, -, hawait, hover, hlost⟩ := h.fate hk <;> simp [hlt, hawait, hover, hlost]

/-- Four records are parked beside a ring for one, and two of them enter it before the write end is
closed. The ticket of the second one was thrown away, and the fourth one is lost. -/
def twoOfFour : List (TicketDeed Nat) :=
  [.drain, .drain, .drain, .drain, .request 0 (.push 10), .request 0 (.pushAwaited 11 0),
    .request 1 (.pushAwaited 12 1), .request 1 (.pushQuietly 13), .request 0 (.pushAwaited 14 2),
    .discard 1, .pop, .drain, .drain, .drain, .drain, .drain, .drain, .drain, .drain, .pop,
    .drain, .drain, .drain, .drain, .drain, .drain, .drain, .drain, .close, .drain, .drain, .scrap]

/-- Of four records three enter the ring, the third from its parking place, and the last one is
lost. -/
theorem tells_truth_twoOfFour :
    (Ring.blank 1 (by decide) : Ring Nat).isEmpty = true ∧
    ∃ j, (opened (Ring.blank 1 (by decide)) .quiet .quiet).run? twoOfFour = some j ∧
      j.entered = 3 ∧ j.popped ++ j.link.ring.contents = [10, 11, 12] ∧
      (j.sent[2]? = some ⟨12, some 1⟩ ∧ j.link.await 1 = .ready (.ok ())) ∧
      j.sent[4]? = some ⟨14, some 2⟩ ∧ j.link.await 2 = .ready (.error .disconnected) := by
  have hempty : (Ring.blank 1 (by decide) : Ring Nat).isEmpty = true := rfl
  let j : TicketJournal Nat :=
    ((opened (Ring.blank 1 (by decide)) .quiet .quiet).run? twoOfFour).get (by decide +kernel)
  have hrun : (opened (Ring.blank 1 (by decide)) .quiet .quiet).run? twoOfFour = some j :=
    (Option.some_get _).symm
  have hentered : j.entered = 3 := by decide +kernel
  have hsent : (j.sent.take 3).map (·.item) = [10, 11, 12] := by decide +kernel
  have hsecond : j.sent[2]? = some ⟨12, some 1⟩ := by decide +kernel
  have hlast : j.sent[4]? = some ⟨14, some 2⟩ := by decide +kernel
  obtain ⟨⟨-, -, hkept⟩, -, htells⟩ := tells_truth hempty .quiet .quiet hrun
  rw [hentered] at hkept htells
  obtain ⟨-, hstored, -⟩ := htells 2 12 1 hsecond
  obtain ⟨-, -, -, hlost, -⟩ := htells 4 14 2 hlast
  exact ⟨hempty, j, hrun, hentered, (hkept (.inl (by decide))).trans hsent,
    ⟨hsecond, hstored.2 (by decide)⟩, hlast, hlost.2 (by decide +kernel)⟩

end TicketJournal

end RingCall
