import RingCall.Proofs.Link.Restarts

/-!
# One record after the other

A consumer that has handled all records is handed the next one when it is sent, and has then handled
all records again (`Vacant.push`). So records that are sent one at a time pass a link of any
capacity, in whatever order its threads take turns, however the consumer idles, and however often
the counters have wrapped around.
-/

namespace RingCall

namespace Link

variable {α : Type} {l l' : Link α} {ring : Ring α} {sent : List α}

/-- A consumer has handled all records. Those that are sent from now on are the ones that count. -/
structure Vacant (l : Link α) : Prop where
  composed : Composed l.ring [] l
  running : l.Running
  attended : l.Attended

/-- An empty link counts anew once what was handed over has been taken from it. -/
theorem Composed.renew (h : Composed ring sent l) (hrunning : l.Running)
    (he : l.ring.isEmpty = true) (reports : Array Report) :
    Composed l.ring [] { l with handled := #[], reports } := by
  let renewed : Link α := { l with handled := #[], reports }
  have hrest := h.atRest
  have hnil := h.overflow_eq_nil he
  have hlen := Ring.isEmpty_iff.1 he
  have hcontents := Ring.contents_eq_nil_iff.2 he
  have hentered : renewed.entered = [] := by
    simp [renewed, entered, h.reader.1, hcontents]
  -- the count starts at the counters as they are now
  have hplaced : Placed l.ring [] [] renewed := by
    refine ⟨h.placed.len_le, rfl, ?_, ?_, fun _ ↦ ⟨[], ⟨?_, .inl hnil⟩, rfl⟩⟩
    · have htail : l.ring.control.tail = l.ring.control.head := by
        rw [Ring.tail_eq, hlen, UInt64.add_zero]
      simp [renewed, reach, hlen, hnil, htail]
    · rw [hentered]
      simp [renewed, hnil]
    · have hkept : renewed.entered ++ l.overflow.map (·.item) = [] := by rw [hentered, hnil]; rfl
      exact hkept
  have hrunning' : renewed.Running :=
    ⟨⟨hrunning.serviced.closing, hrunning.serviced.drain_ne, hrunning.serviced.room⟩,
      hrunning.wake, hrunning.stopping, hrunning.staying⟩
  have htended : renewed.Tended := (h.tidy 0).tended.of_reader rfl rfl rfl rfl rfl rfl rfl id id
  -- no thread looks at what was handed over
  have hsettled : renewed.Settled := by
    refine ⟨h.settled.producers, ?_, ?_⟩
    · simp [renewed, stepDrain, Signal.wait, hrest.drain_eq, hrest.room_eq]
    · obtain ⟨w, ⟨hr, hwake⟩ | ⟨hr, he⟩⟩ := hrunning.of_settled h.settled
      · exact .inl (by simp [renewed, stepReader, stepLoop, Link.handle, Signal.wait, hr, hwake])
      · exact .inr ⟨w, hr, he, hrunning.stopping⟩
  have htidy : Tidy l.ring 0 [] renewed := by
    refine ⟨htended, fun j _ ↦ h.settled.producers j, hrunning'.serviced, hrunning'.wake,
      .inr hrunning', ?_⟩
    rw [Producer.held_of_isIdle (hsettled.producers 0)]
    exact hplaced
  exact htidy.composed hsettled

/-- A consumer that is attended to has handled all records when the link is composed. -/
theorem Composed.vacant (h : Composed ring sent l) (hrunning : l.Running) (hattended : l.Attended)
    (reports : Array Report) : Vacant { l with handled := #[], reports } where
  composed := h.renew hrunning (h.isEmpty hrunning hattended) reports
  running :=
    ⟨⟨hrunning.serviced.closing, hrunning.serviced.drain_ne, hrunning.serviced.room⟩,
      hrunning.wake, hrunning.stopping, hrunning.staying⟩
  attended := ⟨hattended.loud, hattended.heard, hattended.seen⟩

/-- **A record passes.** It is handed over alone, and the consumer waits for another one. -/
theorem Vacant.push (h : l.Vacant) (item : α)
    (hl : (l.setProducer 0 (.asking (.push item))).GoesOn l') (hs : l'.Settled) :
    l'.handled = #[item] ∧ Vacant { l' with handled := #[], reports := #[] } := by
  have hmove : l.move? (.request 0 (.push item)) = some (l.setProducer 0 (.asking (.push item))) :=
    if_pos (h.composed.settled.producers 0)
  have hafter : Composed l.ring [item] l' :=
    ((h.composed.request 0 (.push item)).goesOn hl).composed hs
  have hserviced := h.running.serviced
  have hrunning : l'.Running :=
    hl.preserves (fun _ hm _ _ hturn hr ↦ hr.turn hm hturn)
      ⟨⟨hserviced.closing, hserviced.drain_ne, hserviced.room⟩, h.running.wake,
        h.running.stopping, h.running.staying⟩
  have hattended : l'.Attended :=
    hl.preserves (fun _ hm _ _ hturn ha ↦ ha.move (Move.isQuiet_of_isTurn hm) hturn)
      (h.attended.move rfl hmove)
  have he := hafter.isEmpty hrunning hattended
  have hkept := hafter.kept l.ring.lasts_one
  rw [Ring.contents_eq_nil_iff.2 he, hafter.overflow_eq_nil he, List.map_nil, List.append_nil,
    List.append_nil] at hkept
  exact ⟨Array.toList_inj.1 hkept, hafter.vacant hrunning hattended #[]⟩

/-- A consumer that has just been started on an empty ring. -/
theorem vacant_start {wake room : Signal} (hempty : ring.isEmpty = true)
    (hwake : wake.isOpen = true) (hroom : room.isOpen = true) (policy : IdlePolicy)
    (hopened : (opened ring wake room).GoesOn l) (hs : l.Settled)
    (hl : (l.start policy).GoesOn l') (hs' : l'.Settled) : l'.Vacant := by
  have hbefore : Composed ring [] l := .opened hempty hwake hroom hopened hs
  obtain ⟨htidy, hrunning, hattended⟩ :=
    hbefore.start (by rw [(hopened.of_away rfl).1]; rfl) policy
  have hafter : Composed ring [] l' := (htidy.goesOn hl).composed hs'
  have hrunning' : l'.Running := hl.preserves (fun _ hm _ _ hturn hr ↦ hr.turn hm hturn) hrunning
  have hattended' : l'.Attended :=
    hl.preserves (fun _ hm _ _ hturn ha ↦ ha.move (Move.isQuiet_of_isTurn hm) hturn) hattended
  have hlength := hafter.length_eq
  have hnone : l'.handled = #[] :=
    Array.eq_empty_of_size_eq_zero
      (Nat.eq_zero_of_add_eq_zero (Nat.eq_zero_of_add_eq_zero hlength).1).1
  have hvacant := hafter.vacant hrunning' hattended' l'.reports
  rwa [← hnone] at hvacant

end Link

end RingCall
