import RingCall.Proofs.Link.Operations
import RingCall.Proofs.Ring.Wraparound

/-!
# No record is lost

Whatever is done with a link, the records taken from it, those in its ring and those parked are, in
this order, the records that were sent (`Journal.run_opened`). So each record that was sent is taken
exactly once and in its turn, although some go directly into the ring and others through the
overflow.

A `Journal` is a link whose use so far is written down. What it accounts for is said by `Accounts`,
an invariant that rests on two facts: a producer stores a record directly only if nothing is parked,
and a record that the drain thread moves leaves the front of the overflow for the back of the ring
(`Accounts.enter`). Everything else that a thread does changes flags, signals and the lock, for
which records do not matter (`Accounts.congr`).

The counters of a ring are words. While they have not wrapped around, different records held are in
different slots; nothing is said of the records after that. That the ring never holds more records
than its capacity, and what a producer is told, does not depend on it.
-/

namespace RingCall

variable {α : Type}

/-- The records that a request sends. -/
def Request.items (r : Request α) : List α := (r.sent?.map (·.1.item)).toList

/-! ### Rings that hold the same records -/

/-- Two rings hold the same records under the same counters, whatever their flags. -/
structure Ring.Alike (r r' : Ring α) : Prop where
  capacity_eq : r'.capacity = r.capacity
  head_eq : r'.control.head = r.control.head
  contents_eq : r'.contents = r.contents

namespace Ring

theorem Alike.refl (r : Ring α) : r.Alike r := ⟨rfl, rfl, rfl⟩

theorem Alike.trans {r r' r'' : Ring α} (h : r.Alike r') (h' : r'.Alike r'') : r.Alike r'' :=
  ⟨h'.capacity_eq.trans h.capacity_eq, h'.head_eq.trans h.head_eq,
    h'.contents_eq.trans h.contents_eq⟩

/-- Rings that differ in flags only have as many records. -/
theorem Alike.len_eq {r r' : Ring α} (h : r.Alike r') : r'.len = r.len := by
  have hlength : r'.contents.length = r.contents.length := by rw [h.contents_eq]
  rw [length_contents, length_contents] at hlength
  exact UInt64.toNat_inj.1 hlength

theorem alike_setWorking (r : Ring α) (on : Bool) : r.Alike (r.setWorking on) := ⟨rfl, rfl, rfl⟩

theorem alike_setStuck (r : Ring α) (on : Bool) : r.Alike (r.setStuck on) := ⟨rfl, rfl, rfl⟩

end Ring

namespace Link

variable {l l' : Link α}

/-- Rousing the consumer changes flags only. -/
theorem alike_rouse (l : Link α) : l.ring.Alike l.rouse.ring := by
  rw [rouse]
  split
  · exact .refl _
  · simpa using l.ring.alike_setWorking true

@[simp] theorem overflow_rouse (l : Link α) : l.rouse.overflow = l.overflow := by
  rw [rouse]
  split <;> simp

/-- Parking a record changes flags only. -/
theorem alike_park (l : Link α) (record : Parked α) : l.ring.Alike (l.park record).ring := by
  rw [park]
  simp only
  split
  · exact l.ring.alike_setStuck true
  · simpa using l.ring.alike_setStuck true

/-- A record is parked behind those that are parked already. -/
theorem overflow_park (l : Link α) (record : Parked α) :
    (l.park record).overflow = l.overflow ++ [record] := by
  rw [park]
  simp only
  split <;> simp

/-- Letting the producer go on changes flags only. -/
theorem alike_release (l : Link α) : l.ring.Alike l.release.ring := by
  rw [release]
  split
  · simpa using l.ring.alike_setStuck false
  · exact .refl _

@[simp] theorem overflow_release (l : Link α) : l.release.overflow = l.overflow := by
  rw [release]
  split <;> simp

/-- A record can be stored directly if nothing is parked and the ring is not full. -/
theorem isSome_store?_iff (hle : l.ring.len ≤ l.ring.capacity) (item : α) :
    (l.store? item).isSome = true ↔ l.overflow = [] ∧ l.ring.len < l.ring.capacity := by
  have hroom : (l.ring.push? item).isSome = true ↔ l.ring.len < l.ring.capacity := by
    rw [Option.isSome_iff_ne_none, ne_eq, Ring.push?_eq_none_iff]
    exact ⟨UInt64.lt_of_le_of_ne hle, UInt64.ne_of_lt⟩
  rw [← hroom, store?, ← List.isEmpty_iff]
  split <;> simp_all

/-! ### What a link accounts for -/

/-- What is known of a link that was opened on a ring, when the records in `popped` have been taken
from it and those in `sent` were sent to it. -/
structure Accounts (ring : Ring α) (popped sent : List α) (l : Link α) : Prop where
  capacity_eq : l.ring.capacity = ring.capacity
  len_le : l.ring.len ≤ l.ring.capacity
  /-- The head counts the records taken. -/
  head_eq : l.ring.control.head = ring.control.tail + UInt64.ofNat popped.length
  /-- While the slots stay in turn, no record is missing or out of turn. -/
  kept : ring.Lasts (popped.length + l.ring.len.toNat) →
    popped ++ l.ring.contents ++ l.overflow.map (·.item) = sent

namespace Accounts

variable {ring stored : Ring α} {popped sent : List α} {item : α}

/-- Nothing is owed before the first operation. -/
theorem opened (hempty : ring.isEmpty = true) (wake room : Signal) :
    Accounts ring [] [] (Link.opened ring wake room) where
  capacity_eq := rfl
  len_le := by
    show ring.len ≤ ring.capacity
    rw [Ring.isEmpty_iff.1 hempty, UInt64.le_iff_toNat_le]
    exact Nat.zero_le _
  head_eq := by
    have hhead : ring.control.tail = ring.control.head := by
      simpa [Ring.isEmpty, Control.isEmpty] using hempty
    rw [hhead]
    exact (UInt64.add_zero _).symm
  kept _ := by
    have hcontents : ring.contents = [] := Ring.contents_eq_nil_iff.2 hempty
    simp [Link.opened, hcontents]

/-- The slot that comes next is none of a record held, as long as the slots stay in turn. -/
theorem fits (h : Accounts ring popped sent l)
    (hlasts : ring.Lasts (popped.length + (l.ring.len.toNat + 1))) :
    l.ring.capacity.toNat ∣ 2 ^ 64 ∨ l.ring.control.head.toNat + l.ring.len.toNat < 2 ^ 64 := by
  rw [h.capacity_eq]
  refine hlasts.imp_right fun hwrap ↦ ?_
  have hhead := Nat.mod_le (ring.control.tail.toNat + popped.length) (2 ^ 64)
  rw [h.head_eq, UInt64.toNat_add, UInt64.toNat_ofNat', Nat.add_mod_mod]
  omega

/-- The accounts hold for any link with the same records. -/
theorem congr (h : Accounts ring popped sent l) (hring : l.ring.Alike l'.ring)
    (hover : l'.overflow = l.overflow) : Accounts ring popped sent l' where
  capacity_eq := hring.capacity_eq.trans h.capacity_eq
  len_le := by
    rw [hring.len_eq, hring.capacity_eq]
    exact h.len_le
  head_eq := hring.head_eq.trans h.head_eq
  kept hlasts := by
    rw [hring.len_eq] at hlasts
    rw [hring.contents_eq, hover]
    exact h.kept hlasts

/-- A record enters the ring. It comes before the records that are parked afterwards. -/
theorem enter {sent' : List α} (h : Accounts ring popped sent l)
    (hpush : l.ring.push? item = some stored) (hring : l'.ring = stored)
    (hsent : ∀ before, before ++ l.overflow.map (·.item) = sent →
      before ++ [item] ++ l'.overflow.map (·.item) = sent') :
    Accounts ring popped sent' l' where
  capacity_eq := by rw [hring, Ring.capacity_of_push? hpush, h.capacity_eq]
  len_le := hring ▸ Ring.len_le_of_push? h.len_le hpush
  head_eq := by rw [hring, Ring.head_of_push? hpush, h.head_eq]
  kept hlasts := by
    rw [hring, Ring.toNat_len_of_push? h.len_le hpush] at hlasts
    have hbefore := hlasts.mono (Nat.le_succ _)
    have hcontents : stored.contents = l.ring.contents ++ [item] :=
      Ring.contents_of_push?_of_fits h.len_le (.inr (h.fits hlasts)) hpush
    rw [hring, hcontents, ← List.append_assoc]
    exact hsent _ (h.kept hbefore)

/-- The first record in the ring is taken. -/
theorem leave {rest : Ring α} (h : Accounts ring popped sent l)
    (hpop : l.ring.pop? = some (item, rest)) (hring : l'.ring = rest)
    (hover : l'.overflow = l.overflow) : Accounts ring (popped ++ [item]) sent l' where
  capacity_eq := by rw [hring, Ring.capacity_of_pop? hpop, h.capacity_eq]
  len_le := hring ▸ Ring.len_le_of_pop? h.len_le hpop
  head_eq := by
    rw [hring, Ring.head_of_pop? hpop, h.head_eq, List.length_append, List.length_singleton,
      UInt64.ofNat_add, UInt64.ofNat_one, UInt64.add_assoc]
  kept hlasts := by
    have hlen := Ring.toNat_len_of_pop? hpop
    rw [hring, List.length_append, List.length_singleton] at hlasts
    have hkept := h.kept (hlasts.mono (by omega))
    rw [Ring.contents_of_pop? hpop] at hkept
    rw [hring, hover]
    simpa using hkept

/-! ### What each operation does to it -/

/-- A parked record is accounted for. -/
theorem park (h : Accounts ring popped sent l) (record : Parked α) :
    Accounts ring popped (sent ++ [record.item]) (l.park record) := by
  have hpark := l.alike_park record
  refine ⟨hpark.capacity_eq.trans h.capacity_eq, ?_, hpark.head_eq.trans h.head_eq, ?_⟩
  · rw [hpark.len_eq, hpark.capacity_eq]
    exact h.len_le
  · intro hlasts
    rw [hpark.len_eq] at hlasts
    rw [hpark.contents_eq, overflow_park, List.map_append, ← List.append_assoc, h.kept hlasts]
    rfl

/-- Whether its records are stored or parked, a request is accounted for. -/
theorem fulfil (h : Accounts ring popped sent l) (r : Request α) :
    Accounts ring popped (sent ++ r.items) (l.fulfil r) := by
  rw [Link.fulfil]
  cases hr : r.sent? with
  | none =>
    have hitems : sent ++ r.items = sent := by simp [Request.items, hr]
    rw [hitems]
    exact h.congr l.alike_rouse l.overflow_rouse
  | some request =>
    obtain ⟨record, wakes⟩ := request
    have hitems : r.items = [record.item] := by simp [Request.items, hr]
    rw [hitems]
    rcases hs : l.store? record.item with - | stored
    · simp only [hs]
      exact h.park record
    · -- The overflow is empty, so that nothing is overtaken.
      obtain ⟨hover, hpush⟩ := store?_eq_some hs
      have henter : Accounts ring popped (sent ++ [record.item]) { l with ring := stored } := by
        refine h.enter hpush rfl ?_
        intro before hbefore
        rw [← hbefore]
        simp [hover]
      simp only [hs]
      cases wakes with
      | false => exact henter
      | true => exact henter.congr (alike_rouse _) (overflow_rouse _)

/-- A parked record that enters the ring is accounted for as before. -/
theorem drainStep (h : Accounts ring popped sent l) (hstep : DrainStep l l') :
    Accounts ring popped sent l' := by
  cases hstep with
  | start | finish | lock | halt | skip | lookBusy | lookIdle | checkFull | checkRoom
      | hear | fail =>
    exact h.congr (.refl _) rfl
  | @move _ record rest stored hd hover hpush =>
    refine h.enter hpush rfl ?_
    intro before hbefore
    rw [← hbefore, hover]
    simp
  | rouse => exact h.congr (l.ring.alike_setWorking true) rfl
  | wake => exact h.congr (by simpa using Ring.Alike.refl l.ring) (by simp)
  | clear => exact h.congr (l.ring.alike_setStuck false) rfl
  | flag => exact h.congr (l.ring.alike_setStuck true) rfl

/-- So are all records that enter the ring together. -/
theorem flush (h : Accounts ring popped sent l) : Accounts ring popped sent l.flush :=
  flush_preserves (fun _ _ hstep hm ↦ hm.drainStep hstep) (h.congr (.refl _) rfl)

/-- A record that is popped is accounted for. -/
theorem fetch (h : Accounts ring popped sent l) :
    Accounts ring (popped ++ (l.ring.pop?.map (·.1)).toList) sent l.fetch := by
  rcases hpop : l.ring.pop? with - | ⟨item, rest⟩
  · simpa [Link.fetch, hpop] using h
  · have hleave : Accounts ring (popped ++ [item]) sent { l with ring := rest } :=
      h.leave hpop rfl rfl
    simpa [Link.fetch, hpop] using hleave

end Accounts

end Link

/-! ### Journals -/

/-- What is done with a link, one after the other. -/
inductive Operation (α : Type) where
  /-- A producer makes a request. -/
  | request (i : Nat) (r : Request α)
  /-- The drain thread makes a pass. -/
  | flush
  /-- The reader takes a record. -/
  | pop
  deriving DecidableEq, Repr

/-- A link, and what was done with it. -/
structure Journal (α : Type) where
  link : Link α
  /-- The records sent, in the order in which their producers had the lock. -/
  sent : List α
  /-- The records taken, the first one first. -/
  popped : List α

namespace Journal

variable {ring : Ring α}

/-- A link that has just been opened. -/
def opened (ring : Ring α) (wake room : Signal) : Journal α := ⟨.opened ring wake room, [], []⟩

/-- Does one thing with the link. -/
def perform (j : Journal α) : Operation α → Journal α
  | .request i r => { j with link := (j.link.request i r).2, sent := j.sent ++ r.items }
  | .flush => { j with link := j.link.flush }
  | .pop => { j with link := j.link.pop.2, popped := j.popped ++ j.link.pop.1.toList }

/-- Does things with the link, one after the other. -/
def run (j : Journal α) (ops : List (Operation α)) : Journal α := ops.foldl perform j

/-- The number of records that have entered the ring. -/
def entered (j : Journal α) : Nat := j.popped.length + j.link.ring.len.toNat

/-- What holds between operations: the lock is free and nothing is missing. -/
structure Sound (ring : Ring α) (j : Journal α) : Prop where
  locked : j.link.Locked
  free : j.link.holder = none
  accounts : j.link.Accounts ring j.popped j.sent

/-- The accounts of an empty ring are in order. -/
theorem sound_opened (hempty : ring.isEmpty = true) (wake room : Signal) :
    (opened ring wake room).Sound ring where
  locked := Link.locked_opened ring wake room
  free := rfl
  accounts := .opened hempty wake room

/-- Each operation keeps the accounts in order. -/
theorem Sound.perform {j : Journal α} (h : j.Sound ring) (op : Operation α) :
    (j.perform op).Sound ring := by
  obtain ⟨hlocked, hfree, haccounts⟩ := h
  cases op with
  | request i r =>
    have hlink : (j.perform (.request i r)).link =
        (j.link.fulfil r).setProducer i (.idle (some (j.link.answer r))) := by
      rw [Journal.perform, Link.request_eq hfree]
    refine ⟨?_, ?_, ?_⟩
    · rw [hlink]
      -- taken together, the steps of a request go from idle to idle
      exact hlocked.inside (i := i) (p := .idle (some (j.link.answer r))) (.inl hfree)
        (by simp [hfree, Producer.isLocking]) (by simp [Link.setProducer]) (by simp)
    · rw [hlink]
      simp [hfree]
    · rw [hlink]
      exact (haccounts.fulfil r).congr (.refl _) rfl
  | flush =>
    obtain ⟨hlocked, hfree⟩ := Link.flush_locked hlocked hfree
    exact ⟨hlocked, hfree, haccounts.flush⟩
  | pop =>
    have hlink := j.link.pop_eq
    refine ⟨?_, ?_, ?_⟩
    · rw [Journal.perform, hlink]
      exact hlocked.congr (by simp) (by simp) (by simp)
    · rw [Journal.perform, hlink]
      simp [hfree]
    · rw [Journal.perform, hlink]
      exact haccounts.fetch.congr (Link.alike_release _) (by simp)

/-- **The accounts are in order after any operations.** -/
theorem Sound.run {j : Journal α} (h : j.Sound ring) (ops : List (Operation α)) :
    (j.run ops).Sound ring := by
  induction ops generalizing j with
  | nil => exact h
  | cons op ops ih => exact ih (h.perform op)

/-- A request that sends a record is told that the record is in the ring exactly if it fits there
and nothing is parked. -/
theorem answer_eq_stored_iff {l : Link α} (hle : l.ring.len ≤ l.ring.capacity) {r : Request α}
    {record : Parked α} {wakes : Bool} (hr : r.sent? = some (record, wakes)) :
    l.answer r = .stored ↔ l.overflow = [] ∧ l.ring.len < l.ring.capacity := by
  rw [Link.answer, hr, ← Link.isSome_store?_iff hle record.item]
  simp only
  split <;> simp_all

/-- **No record is lost.** Whatever is done with a link on an empty ring, the records taken, those
in the ring and those parked are the records sent, while the counters of the ring have not wrapped
around. The ring never holds more than its capacity, the lock is free again after each operation,
and a request that sends a record is told whether it went into the ring. -/
theorem run_opened (hempty : ring.isEmpty = true) (wake room : Signal) (ops : List (Operation α)) :
    let j := (opened ring wake room).run ops
    (ring.control.tail.toNat + j.entered < 2 ^ 64 →
      j.popped ++ j.link.ring.contents ++ j.link.overflow.map (·.item) = j.sent) ∧
    j.link.ring.len ≤ ring.capacity ∧
    j.link.holder = none ∧
    ∀ i r record wakes, r.sent? = some (record, wakes) →
      ((j.link.request i r).1 = some .stored ↔
        j.link.overflow = [] ∧ j.link.ring.len < ring.capacity) ∧
      ((j.link.request i r).1 = some .stored ∨
        (j.link.request i r).1 = some (.parked record.ticket)) := by
  intro j
  have hsound : j.Sound ring := (sound_opened hempty wake room).run ops
  have hcap := hsound.accounts.capacity_eq
  have hle := hsound.accounts.len_le
  refine ⟨?_, hcap ▸ hle, hsound.free, ?_⟩
  · intro hwrap
    exact hsound.accounts.kept (.inr hwrap.le)
  · intro i r record wakes hr
    rw [Link.request_eq hsound.free, ← hcap]
    refine ⟨by simpa using answer_eq_stored_iff hle hr, ?_⟩
    simp only [Link.answer, hr]
    split <;> simp

/-- Five records through a ring for two, one of them quietly: two are taken, two are in the ring and
one is parked. -/
theorem run_opened_blank :
    (Ring.blank 2 (by decide) : Ring Nat).isEmpty = true ∧
    let j := (opened (Ring.blank 2 (by decide)) .quiet .quiet).run
      [.request 0 (.push 10), .request 1 (.pushQuietly 11), .request 0 (.push 12), .pop,
        .request 1 (.pushAwaited 13 7), .request 2 .notify, .flush, .pop,
        .request 0 (.push 14), .flush]
    j.popped = [10, 11] ∧ j.link.ring.contents = [12, 13] ∧
      j.popped ++ j.link.ring.contents ++ j.link.overflow.map (·.item) = j.sent ∧
      ((j.link.request 0 (.push 15)).1 = some .stored ↔
        j.link.overflow = [] ∧ j.link.ring.len < 2) := by
  refine ⟨rfl, by decide, by decide, ?_, ?_⟩
  · exact (run_opened rfl .quiet .quiet _).1 (by decide)
  · exact ((run_opened rfl .quiet .quiet _).2.2.2 0 (.push 15) _ _ rfl).1

end Journal

end RingCall
