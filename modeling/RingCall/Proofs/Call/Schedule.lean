import RingCall.Call.Schedule
import RingCall.Proofs.Link.Passage
import RingCall.Proofs.Pool.Turnover

/-!
# Schedules of turns

What a schedule does consists of turns of the threads, and goes on until none is left
(`Schedule.Lawful`). Nothing else is asked of it: the threads that send a record, move parked ones,
read the ring and serve calls may take their turns in any order. So a record that is sent is handed
over (`Lawful.link_push`), and a job that is queued gets a worker (`Lawful.pool_submit`), who waits
again when it has ended (`Lawful.pool_finish`).

One thread after the other is such an order (`Schedule.lawful_inTurn`).
-/

namespace RingCall

namespace Schedule

/-- A link that the threads bring to rest by turns. -/
structure Settles (s : Schedule) (l : Link Record) : Prop where
  goesOn : l.GoesOn (s.link l)
  settled : (s.link l).Settled

/-- The threads take turns until none is left: when a ring is opened, when a consumer is started on
it, when a record is sent there, and when the workers of a pool have something to do. -/
structure Lawful (s : Schedule) : Prop where
  opened : ∀ ring : Ring Record, ring.isEmpty = true → s.Settles (.opened ring .quiet .quiet)
  start : ∀ (ring : Ring Record) (sent : List Record) (l : Link Record) (policy : IdlePolicy),
    Link.Composed ring sent l → l.reader.isIdle = true → s.Settles (l.start policy)
  push : ∀ (ring : Ring Record) (sent : List Record) (l : Link Record) (r : Record),
    Link.Composed ring sent l → s.Settles (l.setProducer 0 (.asking (.push r)))
  goesOn_pool : ∀ p : Pool Record, p.GoesOn (s.pool p)
  /-- The workers settle while nobody has the lock of the spill. -/
  settled_pool : ∀ p : Pool Record, p.held = none → (s.pool p).Settled

namespace Lawful

variable {s : Schedule} {l : Link Record} {p : Pool Record} {i : Nat} {call : Record}

/-- A record that is sent to a consumer that waits is handed over. -/
theorem link_push (h : s.Lawful) (hl : l.Vacant) (r : Record) :
    (s.link (l.setProducer 0 (.asking (.push r)))).handled = #[r] ∧
      Link.Vacant { s.link (l.setProducer 0 (.asking (.push r))) with
        handled := #[], reports := #[] } :=
  have hpushed := h.push _ _ _ r hl.composed
  hl.push r hpushed.goesOn hpushed.settled

/-- A consumer that has been started on an empty ring waits for a record. -/
theorem link_start (h : s.Lawful) {ring : Ring Record} (hempty : ring.isEmpty = true)
    (policy : IdlePolicy) :
    (s.link ((s.link (.opened ring .quiet .quiet)).start policy)).Vacant := by
  have hquiet : Signal.quiet.isOpen = true := rfl
  have hopened := h.opened ring hempty
  have hbefore := Link.Composed.opened hempty hquiet hquiet hopened.goesOn hopened.settled
  have hidle : (s.link (.opened ring .quiet .quiet)).reader.isIdle = true := by
    rw [(hopened.goesOn.of_away rfl).1]
    rfl
  have hstarted := h.start _ _ _ policy hbefore hidle
  exact Link.vacant_start hempty hquiet hquiet policy hopened.goesOn hopened.settled
    hstarted.goesOn hstarted.settled

/-- A call is taken by a worker, if one is spare. -/
theorem pool_submit (h : s.Lawful) (hp : p.Poised) (hspare : 0 < p.spare) (call : Record) :
    ∃ i, p.workers[i]? = some .waiting ∧
      s.pool (p.submit call) = p.setWorker i (.running call false) := by
  have hheld : (p.submit call).held = none := by
    rw [hp.submit_eq]
    exact hp.held_eq
  exact hp.submit hspare (h.goesOn_pool _) (h.settled_pool _ hheld)

/-- A worker whose call has ended waits for another one. -/
theorem pool_finish (h : s.Lawful) (hp : p.Poised)
    (hi : p.workers[i]? = some (.running call false)) :
    s.pool ((p.finish? i).getD p) =
      { p with finished := p.finished ++ [call] }.setWorker i .waiting := by
  obtain ⟨ended, hended, hheld, hfinish⟩ := hp.finish hi
  rw [hended]
  exact hfinish _ (h.goesOn_pool _) (h.settled_pool _ hheld)

end Lawful

/-! ### One thread after the other -/

/-- Without a request only the other threads take turns. -/
theorem link_inTurn_of_isIdle {l : Link Record} (h : (l.producers 0).isIdle = true) :
    inTurn.link l = l.settle := by
  have hnone : l.stepProducer 0 = none := Link.move?_produce_of_isIdle h
  exact congrArg Link.settle (runSteps_of_eq_none hnone _)

/-- One thread after the other carries out the request to send a record. -/
theorem link_inTurn_setProducer (l : Link Record) (r : Record) :
    inTurn.link (l.setProducer 0 (.asking (.push r))) = l.carryOut (.request 0 (.push r)) := by
  rw [Link.carryOut, Link.request]
  split <;> rfl

/-- **One thread after the other is an order of turns**, and comes to its end. -/
theorem lawful_inTurn : inTurn.Lawful where
  opened ring hempty := by
    have hlink : inTurn.link (.opened ring .quiet .quiet) =
        (Link.opened ring .quiet .quiet).settle := link_inTurn_of_isIdle rfl
    refine ⟨?_, ?_⟩ <;> rw [hlink]
    · exact Link.goesOn_settle _
    · exact Link.settled_opened hempty rfl rfl
  start ring sent l policy h hidle := by
    have hlink : inTurn.link (l.start policy) = (l.start policy).settle :=
      link_inTurn_of_isIdle (h.settled.producers 0)
    have hcarried := h.undergoes_carryOut (t := .start policy) hidle
    exact ⟨hlink ▸ Link.goesOn_settle _, hlink ▸ hcarried.settled⟩
  push ring sent l r h := by
    have hcarried := h.undergoes_carryOut (t := .request 0 (.push r)) rfl
    obtain ⟨m, hm, hgoes⟩ := hcarried.goesOn
    obtain rfl := Option.some.inj ((if_pos (h.settled.producers 0)).symm.trans hm)
    exact ⟨link_inTurn_setProducer l r ▸ hgoes, link_inTurn_setProducer l r ▸ hcarried.settled⟩
  goesOn_pool := Pool.goesOn_settle
  settled_pool _ := Pool.settled_settle

end Schedule

end RingCall
