import RingCall.Proofs.Call.Trail
import RingCall.Proofs.Steps

/-!
# The books of a conversation balance

However the turns of two ends interleave, the slabs of each end have exactly the tickets and handles
that are under way, each of them once, and each reply arrives at the caller whose call it answers
(`Conversation.ledger_of_run?`). So no record is ever passed over, no call has two replies, and each
response that is kept is given back at most once.

Handles are words. The theorem speaks of conversations in which the numbers of the slots that were
ever used fit into them. It takes about as many turns as there are words to get to others
(`Conversation.fits_of_run?`).
-/

namespace RingCall

/-! ### Trails of a whole conversation -/

namespace Trail

/-- The trail of the calls of one end after a turn of either. -/
def follow (t : Trail) (c : Conversation) (asker : Side) (turn : Side × Turn) : Trail :=
  if turn.1 = asker then t.ask (c asker) turn.2 else t.serve (c turn.1) turn.2

/-- The trail of the calls of one end after turns. -/
def along (asker : Side) : Conversation → Trail → List (Side × Turn) → Trail
  | _, t, [] => t
  | c, t, turn :: turns =>
    match c.step turn.1 turn.2 with
    | some c' => along asker c' (t.follow c asker turn) turns
    | none => t

end Trail

/-- An endpoint that has just been made has two empty slabs of one size. -/
theorem Endpoint.new_eq_ok {registry : Registry} {shards : UInt64} {e : Endpoint}
    (h : Endpoint.new registry shards = .ok e) :
    ∃ bits, 2 ^ bits = shards.toNat ∧ e.pending = .ofBits bits ∧ e.stored = .ofBits bits := by
  by_cases hcount : ShardedSlab.isShardCount shards.toNat = true
  · simp only [Endpoint.new, ShardedSlab.new, hcount, if_true] at h
    cases h
    refine ⟨shards.toNat.log2, ?_, rfl, rfl⟩
    rw [ShardedSlab.isShardCount, beq_iff_eq, Nat.one_shiftLeft] at hcount
    exact hcount.symm
  · simp only [Endpoint.new, ShardedSlab.new, hcount] at h
    cases h

namespace Speaker

/-- Neither slab of an end has stored more values than a number of turns. -/
structure Paced (bits : Nat) (p : Speaker) (turns : Nat) : Prop where
  pending : ∃ n ≤ turns, ShardedSlab.Paced bits p.endpoint.pending n
  stored : ∃ n ≤ turns, ShardedSlab.Paced bits p.endpoint.stored n

/-- What was stored after fewer turns was stored after more. -/
theorem Paced.mono {bits m n : Nat} {p : Speaker} (h : p.Paced bits m) (hle : m ≤ n) :
    p.Paced bits n := by
  obtain ⟨⟨i, hi, hpending⟩, ⟨j, hj, hstored⟩⟩ := h
  exact ⟨⟨i, Nat.le_trans hi hle, hpending⟩, ⟨j, Nat.le_trans hj hle, hstored⟩⟩

/-- A turn stores at most one value. -/
theorem Paced.step {bits n : Nat} {p q p' q' : Speaker} {turn : Turn} (hbits : bits ≤ 64)
    (h : p.Paced bits n) (hstep : TurnStep p q turn p' q') : p'.Paced bits (n + 1) := by
  have hnext := h.mono (Nat.le_succ n)
  obtain ⟨i, hi, hpending⟩ := h.pending
  obtain ⟨j, hj, hstored⟩ := h.stored
  cases hstep with
  | openCall => exact ⟨⟨i + 1, Nat.succ_le_succ hi, hpending.push hbits _⟩, hnext.stored⟩
  | arrive => exact ⟨⟨i, Nat.le_trans hi (Nat.le_succ n), hpending.pop _⟩, hnext.stored⟩
  | free => exact ⟨hnext.pending, ⟨j, Nat.le_trans hj (Nat.le_succ n), hstored.pop _⟩⟩
  | conclude => exact ⟨hnext.pending, ⟨j + 1, Nat.succ_le_succ hj, hstored.push hbits _⟩⟩
  | sendCall | serve | ignore | concludeEmpty | sendReply | receive | release | releaseEmpty =>
    exact ⟨hnext.pending, hnext.stored⟩

end Speaker

namespace Conversation

variable {c c' : Conversation} {turn : Side × Turn} {turns : List (Side × Turn)}

/-- The numbers of all slots fit into handles. -/
def Fits (c : Conversation) : Prop := ∀ side, (c side).Fits

/-- **The invariant of a conversation.** -/
def Balanced (c : Conversation) : Prop := ∀ side, (c side).Balanced (c side.other)

/-- Slots are only added, so if all have handles after a turn they had before. -/
theorem Fits.of_step (hf : c'.Fits) (h : c.step turn.1 turn.2 = some c') : c.Fits := by
  have hstep := turnStep_of_step h
  intro side
  rcases eq_or_eq_other turn.1 side with rfl | rfl
  · exact (hf _).of_step hstep
  · have hend := Speaker.endpoint_listen hstep
    exact ⟨hend ▸ (hf _).pending, hend ▸ (hf _).stored⟩

/-- The books are kept by each turn of each end. -/
theorem Balanced.step (hb : c.Balanced) (hf : c'.Fits) (h : c.step turn.1 turn.2 = some c') :
    c'.Balanced := by
  have hstep := turnStep_of_step h
  have hlisten : (c turn.1.other).Balanced (c turn.1) := by simpa using hb turn.1.other
  intro side
  rcases eq_or_eq_other turn.1 side with rfl | rfl
  · exact (hb _).speak hlisten.formed (hf _) hstep
  · simpa using hlisten.listen (hb _) hstep

/-- The trail of an end's calls goes on to agree with the tickets. -/
theorem owned_step (hb : c.Balanced) (hf : c'.Fits) (h : c.step turn.1 turn.2 = some c')
    (side : Side) {t : Trail} (ho : (c side).Owned (c side.other) t) :
    (c' side).Owned (c' side.other) (t.follow c side turn) := by
  have hstep := turnStep_of_step h
  rcases eq_or_eq_other side turn.1 with hside | hside
  · rw [Trail.follow, if_pos hside]
    rw [hside] at hstep
    exact ho.speak (hb side) (hf side) hstep
  · have hne : turn.1 ≠ side := fun heq ↦ absurd (heq.symm.trans hside) (by cases side <;> nofun)
    rw [hside, other_other] at hstep
    rw [Trail.follow, if_neg hne, hside]
    exact ho.listen (by simpa using hb side.other) hstep

/-- A run has a first turn. -/
theorem run?_cons (c : Conversation) (turn : Side × Turn) (turns : List (Side × Turn)) :
    c.run? (turn :: turns) = (c.step turn.1 turn.2).bind fun c ↦ c.run? turns := rfl

/-- All slots had handles before a run if they have after it. -/
theorem Fits.of_run? (hf : c'.Fits) (h : c.run? turns = some c') : c.Fits := by
  induction turns generalizing c with
  | nil =>
    obtain rfl := Option.some.inj h
    exact hf
  | cons turn turns ih =>
    rw [run?_cons] at h
    obtain ⟨d, hcd, hd⟩ := Option.bind_eq_some_iff.1 h
    exact (ih hd).of_step hcd

/-- The invariants hold after a run. -/
theorem Balanced.run? (hb : c.Balanced) (hf : c'.Fits) (h : c.run? turns = some c') (side : Side)
    {t : Trail} (ho : (c side).Owned (c side.other) t) :
    c'.Balanced ∧ (c' side).Owned (c' side.other) (Trail.along side c t turns) := by
  induction turns generalizing c t with
  | nil =>
    obtain rfl := Option.some.inj h
    exact ⟨hb, ho⟩
  | cons turn turns ih =>
    rw [run?_cons] at h
    obtain ⟨d, hcd, hd⟩ := Option.bind_eq_some_iff.1 h
    -- slots that fit in the end have fit all along
    have hfits : d.Fits := hf.of_run? hd
    have hbd : d.Balanced := hb.step hfits hcd
    have hod := owned_step hb hfits hcd side ho
    rw [Trail.along, hcd]
    exact ih hbd hd hod

/-! ### From the start -/

/-- Nobody owns a ticket before the first call. -/
theorem owned_silent (e e' : Endpoint) : (silent e).Owned (silent e') .empty :=
  ⟨rfl, rfl, rfl, rfl, rfl, rfl⟩

/-- The books of a conversation that has not begun are in order. -/
theorem balanced_silent {e : Endpoint} (hpending : ∃ bits, e.pending = .ofBits bits)
    (hstored : ∃ bits, e.stored = .ofBits bits) (e' : Endpoint) :
    (silent e).Balanced (silent e') := by
  obtain ⟨bits, hpending⟩ := hpending
  obtain ⟨bits', hstored⟩ := hstored
  refine ⟨⟨nofun, nofun, nofun⟩, ?_, ?_, ?_, ?_⟩
  · exact hpending ▸ ShardedSlab.sound_ofBits bits
  · exact hstored ▸ ShardedSlab.sound_ofBits bits'
  · exact hpending ▸ ShardedSlab.lists_ofBits bits
  · exact hstored ▸ ShardedSlab.lists_ofBits bits'

/-! ### Conversations in which slots fit -/

/-- After a run, no slab has stored more values than there were turns. -/
theorem paced_of_run? {bits : Side → Nat} (hbits : ∀ side, bits side ≤ 64) {n : Nat}
    (hpaced : ∀ side, (c side).Paced (bits side) n) (h : c.run? turns = some c') (side : Side) :
    (c' side).Paced (bits side) (n + turns.length) := by
  induction turns generalizing c n with
  | nil =>
    obtain rfl := Option.some.inj h
    exact hpaced side
  | cons turn turns ih =>
    rw [run?_cons] at h
    obtain ⟨d, hcd, hd⟩ := Option.bind_eq_some_iff.1 h
    have hstep := turnStep_of_step hcd
    have hnext : ∀ side, (d side).Paced (bits side) (n + 1) := by
      intro side
      rcases eq_or_eq_other turn.1 side with rfl | rfl
      · exact (hpaced _).step (hbits _) hstep
      · have hend := Speaker.endpoint_listen hstep
        have hother := (hpaced turn.1.other).mono (Nat.le_succ n)
        exact ⟨hend ▸ hother.pending, hend ▸ hother.stored⟩
    rw [List.length_cons, Nat.add_comm turns.length, ← Nat.add_assoc]
    exact ih hnext hd

/-- **Slots fit into handles** in every conversation of fewer turns than there are words, less the
number of shards. -/
theorem fits_of_run? {registry registry' : Registry} {shards shards' : UInt64}
    {left right : Endpoint} (hleft : Endpoint.new registry shards = .ok left)
    (hright : Endpoint.new registry' shards' = .ok right)
    (h : (start left right).run? turns = some c) (hlen : turns.length + shards.toNat ≤ 2 ^ 64)
    (hlen' : turns.length + shards'.toNat ≤ 2 ^ 64) : c.Fits := by
  obtain ⟨bits, hbits, hpending, hstored⟩ := Endpoint.new_eq_ok hleft
  obtain ⟨bits', hbits', hpending', hstored'⟩ := Endpoint.new_eq_ok hright
  let bitsOf : Side → Nat := fun side ↦ if side = .left then bits else bits'
  have hle : ∀ side, turns.length + 2 ^ bitsOf side ≤ 2 ^ 64 := by
    rintro (- | -)
    · show turns.length + 2 ^ bits ≤ 2 ^ 64
      rw [hbits]
      exact hlen
    · show turns.length + 2 ^ bits' ≤ 2 ^ 64
      rw [hbits']
      exact hlen'
  have hbound : ∀ side, bitsOf side ≤ 64 := fun side ↦
    (Nat.pow_le_pow_iff_right (by omega)).1 (Nat.le_trans (Nat.le_add_left _ _) (hle side))
  -- each turn stores at most one value in each slab, so that pace bounds the slots
  have hpaced : ∀ side, (start left right side).Paced (bitsOf side) 0 := by
    rintro (- | -)
    · exact ⟨⟨0, Nat.le_refl _, hpending ▸ .ofBits bits⟩,
        ⟨0, Nat.le_refl _, hstored ▸ .ofBits bits⟩⟩
    · exact ⟨⟨0, Nat.le_refl _, hpending' ▸ .ofBits bits'⟩,
        ⟨0, Nat.le_refl _, hstored' ▸ .ofBits bits'⟩⟩
  intro side
  obtain ⟨⟨i, hi, hpending⟩, ⟨j, hj, hstored⟩⟩ := paced_of_run? hbound hpaced h side
  have hside := hle side
  exact ⟨hpending.fits (by omega), hstored.fits (by omega)⟩

/-! ### The theorem -/

/-- **The books balance.** Take two endpoints that have just been made, and let them take turns in
any order. If the slots' numbers fit into handles, then at each end the tickets in use are those of
the calls that await their reply, the handles in use are those known elsewhere, no record on its way
will be passed over, and replies have arrived at the callers whose calls they answer. -/
theorem ledger_of_run? {registry registry' : Registry} {shards shards' : UInt64}
    {left right : Endpoint} (hleft : Endpoint.new registry shards = .ok left)
    (hright : Endpoint.new registry' shards' = .ok right)
    (h : (start left right).run? turns = some c) (hf : c.Fits) (side : Side) :
    (c side).endpoint.pending.Lists ((c side).tickets (c side.other)) ∧
    (c side).endpoint.stored.Lists ((c side).loans (c side.other)) ∧
    (∀ r ∈ (c side).inbound, ∀ report, ((c side).endpoint.dispatch r).1 ≠ .ignore report) ∧
    (c side).arrived.map (·.1) = (Trail.along side (start left right) .empty turns).arrived := by
  obtain ⟨bits, -, hpending, hstored⟩ := Endpoint.new_eq_ok hleft
  obtain ⟨bits', -, hpending', hstored'⟩ := Endpoint.new_eq_ok hright
  have hstart : (start left right).Balanced := by
    rintro (- | -)
    · exact balanced_silent ⟨bits, hpending⟩ ⟨bits, hstored⟩ right
    · exact balanced_silent ⟨bits', hpending'⟩ ⟨bits', hstored'⟩ left
  have howned : ((start left right) side).Owned ((start left right) side.other) .empty := by
    cases side
    · exact owned_silent left right
    · exact owned_silent right left
  obtain ⟨hbalanced, howned⟩ := hstart.run? hf h side howned
  exact ⟨(hbalanced side).tickets, (hbalanced side).loans, (hbalanced side).heedful, howned.arrived⟩

/-- Two calls that are answered in the other order, the first of them with a response. Between the
replies a third call takes over the ticket of the second. -/
def threeCalls : List (Side × Turn) :=
  [(.left, .openCall 7 64), (.left, .openCall 8 96), (.left, .sendCall 1), (.left, .sendCall 0),
    (.right, .dispatch), (.right, .dispatch), (.right, .conclude 0 none),
    (.right, .conclude 0 (some ⟨4096, ⟨[], ⟨4096, #[], 0⟩⟩⟩)), (.right, .sendReply 0),
    (.left, .dispatch), (.left, .openCall 9 128), (.right, .sendReply 0), (.left, .dispatch)]

/-- Three calls are made and two are answered, one of them emptily and before the other. -/
theorem ledger_of_threeCalls :
    ∃ c, (start ⟨.empty, .ofBits 0, .ofBits 0⟩ ⟨.empty, .ofBits 0, .ofBits 0⟩).run?
      threeCalls = some c ∧
      (c .left).tickets (c .right) = [2] ∧ (c .left).endpoint.pending.Lists
        ((c .left).tickets (c .right)) ∧
      (c .right).loans (c .left) = [1] ∧ (c .right).endpoint.stored.Lists
        ((c .right).loans (c .left)) ∧
      (c .left).arrived.map (·.1) = [1, 0] := by
  let e : Endpoint := ⟨.empty, .ofBits 0, .ofBits 0⟩
  let c : Conversation := ((start e e).run? threeCalls).get (by decide)
  have hrun : (start e e).run? threeCalls = some c := (Option.some_get _).symm
  have hnew : Endpoint.new .empty 1 = .ok e := rfl
  have hfits : c.Fits := fits_of_run? hnew hnew hrun (by decide) (by decide)
  have hleft := ledger_of_run? hnew hnew hrun hfits .left
  have hright := ledger_of_run? hnew hnew hrun hfits .right
  exact ⟨c, hrun, by decide, hleft.1, by decide, hright.2.1, hleft.2.2.2.trans (by decide)⟩

end Conversation

end RingCall
