import RingCall.Proofs.Link.Consumer
import RingCall.Proofs.Link.Idling

/-!
# Turns

The threads of a link take turns in any order (`Link.GoesOn`). A link is settled once no turn is
left but those of a consumer that idles in front of an empty ring (`Link.Settled`).

`Link.settle` takes one order of the turns, and passes over idle periods. So what it does is one of
the things that the threads can do, and leads to a link that is settled in this sense too
(`Link.goesOn_settle`, `Link.settled_settle`).
-/

namespace RingCall

variable {α : Type}

/-- Whether a move is the turn of a thread. Handlers always return. -/
def Move.isTurn : Move α → Bool
  | .produce _ | .drain | .read | .handle false false => true
  | _ => false

/-- A turn is no quiet move. -/
theorem Move.isQuiet_of_isTurn {m : Move α} (h : m.isTurn = true) : m.isQuiet = false := by
  cases m with
  | request => cases h
  | produce | drain | fetch | start | read | handle | askToStop | close => rfl

namespace Link

variable {l l' l'' : Link α}

/-- A producer that is idle has no turn. -/
theorem move?_produce_of_isIdle {i : Nat} (h : (l.producers i).isIdle = true) :
    l.move? (.produce i) = none := by
  obtain ⟨last, hp⟩ := Producer.exists_of_isIdle h
  simp [move?, stepProducer, hp]

/-- The threads take turns, any number of them and in any order. -/
def GoesOn (l l' : Link α) : Prop :=
  ∃ ms : List (Move α), (∀ m ∈ ms, m.isTurn = true) ∧ l.moves? ms = some l'

namespace GoesOn

/-- No turn is an order of turns. -/
theorem refl (l : Link α) : l.GoesOn l := ⟨[], nofun, rfl⟩

/-- Turns can be taken after turns. -/
theorem trans (h : l.GoesOn l') (h' : l'.GoesOn l'') : l.GoesOn l'' := by
  obtain ⟨ms, hturns, hms⟩ := h
  obtain ⟨ms', hturns', hms'⟩ := h'
  refine ⟨ms ++ ms', fun m hm ↦ (List.mem_append.1 hm).elim (hturns m) (hturns' m), ?_⟩
  rw [moves?_append, hms]
  exact hms'

/-- One turn is an order of turns. -/
theorem of_move {m : Move α} (hm : m.isTurn = true) (h : l.move? m = some l') : l.GoesOn l' :=
  ⟨[m], fun _ hm' ↦ List.mem_singleton.1 hm' ▸ hm, by
    rw [moves?, List.foldlM_cons, h]
    rfl⟩

/-- What each turn preserves holds afterwards. -/
theorem preserves {P : Link α → Prop}
    (hturn : ∀ m : Move α, m.isTurn = true → ∀ l l', l.move? m = some l' → P l → P l')
    (h : l.GoesOn l') (hl : P l) : P l' := by
  obtain ⟨ms, hturns, hms⟩ := h
  exact foldlM_preserves (fun m hm l l' hmove ↦ hturn m (hturns m hm) l l' hmove) hms hl

/-- Steps that are made of turns are turns, however many are taken. -/
theorem runSteps {step : Link α → Option (Link α)} (hstep : ∀ m m', step m = some m' → m.GoesOn m')
    (n : Nat) (l : Link α) : l.GoesOn (RingCall.runSteps step n l) :=
  runSteps_preserves (P := l.GoesOn) (fun m m' h hl ↦ hl.trans (hstep m m' h)) n (refl l)

end GoesOn

/-- No turn is left but those of a consumer that idles in front of an empty ring. -/
structure Settled (l : Link α) : Prop where
  producers : ∀ i, (l.producers i).isIdle = true
  drain : l.stepDrain = none
  reader : l.stepReader = none ∧ l.handle false false = none ∨
    ∃ w, l.reader = .looping w .idling ∧ l.ring.isEmpty = true ∧ l.stopping = false

/-! ### Every link can be settled -/

/-- An idle period that is passed over consists of turns. -/
theorem goesOn_of_idleOut {w : Waiter} (hr : l.reader = .looping w .idling)
    (he : l.ring.isEmpty = true) (hs : l.stopping = false) (h : l.idleOut w = some l') :
    l.GoesOn l' := by
  obtain ⟨w', hw', hstep⟩ := Option.bind_eq_some_iff.1 h
  rw [Waiter.exhausted?_eq] at hw'
  obtain ⟨n, hn, rfl⟩ := Option.map_eq_some_iff.1 hw'
  have hidle := moves?_replicate_read hr he hs (n := n) fun k hk ↦ by
    rw [hn] at hk
    exact (Option.some.inj hk).le
  refine ⟨List.replicate n .read ++ [.read], ?_, ?_⟩
  · intro m hm
    rcases List.mem_append.1 hm with hm | hm
    · exact (List.mem_replicate.1 hm).2 ▸ rfl
    · exact List.mem_singleton.1 hm ▸ rfl
  · rw [moves?_concat, hidle]
    exact hstep

/-- A step of settling is a turn. -/
theorem goesOn_of_advanceFreely (h : l.advanceFreely = some l') : l.GoesOn l' := by
  rw [advanceFreely] at h
  split at h
  · next m hm =>
    obtain rfl := Option.some.inj h
    rw [advance] at hm
    split at hm
    · next hd => exact .of_move (m := .drain) rfl (hd.trans hm)
    · split at hm
      · next w hr =>
        split at hm
        · next hquiet =>
          rw [Bool.and_eq_true, Bool.not_eq_true'] at hquiet
          exact goesOn_of_idleOut hr hquiet.1 hquiet.2 hm
        · exact .of_move (m := .read) rfl hm
      · exact .of_move (m := .read) rfl hm
  · exact .of_move (m := .handle false false) rfl h

/-- No turn is left when settling has come to its end. -/
theorem settled_of_advanceFreely (hidle : ∀ i, (l.producers i).isIdle = true)
    (h : l.advanceFreely = none) : l.Settled := by
  rw [advanceFreely] at h
  split at h
  · cases h
  next hnone =>
  refine ⟨hidle, stepDrain_of_advance hnone, ?_⟩
  rw [advance] at hnone
  split at hnone
  · cases hnone
  split at hnone
  · next w hr =>
    split at hnone
    · next hquiet =>
      rw [Bool.and_eq_true, Bool.not_eq_true'] at hquiet
      exact .inr ⟨w, hr, hquiet⟩
    · exact .inl ⟨hnone, h⟩
  · exact .inl ⟨hnone, h⟩

/-- Settling is one order of turns. -/
theorem goesOn_settle (l : Link α) : l.GoesOn l.settle :=
  .runSteps (fun _ _ ↦ goesOn_of_advanceFreely) _ l

/-- If the producers stand still and the write end has not been disturbed, then the other threads
settle. -/
theorem settled_settle (h : l.Undisturbed) (hidle : ∀ i, (l.producers i).isIdle = true) :
    l.settle.Settled := by
  have hsettled : ∀ i, (l.settle.producers i).isIdle = true :=
    settle_preserves (P := fun m ↦ ∀ i, (m.producers i).isIdle = true)
      (fun m m' ha hm ↦ by
        rcases ha.sameWriters with hdrain | hsame
        · rw [hdrain.producers_eq]
          exact hm
        · rw [hsame.producers_eq]
          exact hm) hidle
  exact settled_of_advanceFreely hsettled (advanceFreely_settle h)

end Link

end RingCall
