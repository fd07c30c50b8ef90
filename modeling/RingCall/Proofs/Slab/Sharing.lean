import RingCall.Proofs.Slab.HandleMap
import RingCall.Proofs.Slab.Sharded
import RingCall.Slab.Shared

/-!
# Sharded slabs in use by several threads are maps of handles

Whatever the order in which threads choose shards, store values there and take values out, a sharded
slab answers as a finite map from handles to values does, as long as the numbers of its slots fit
into handles (`SharedSlab.outcomes_run?`). A shard holds just the values whose handles lead to it.

Nothing is known of a shard between the moment at which a thread chooses it and the moment at which
the thread stores its value. Nor need it be: a shard gives a value a number that is free at that
moment (`ShardedSlab.get?_fst_pushAt`), and the handle made of the number leads back to the shard,
for the shard is part of the handle (`ShardedSlab.slot_fst_pushAt`).
-/

namespace RingCall

variable {α : Type}

/-- What a map of handles answers to a thread, while the values in a list are on their way, and what
becomes of both. -/
inductive HandleMap.Outcome (live : HandleMap UInt64 α) (storing : List α) :
    SlabTurn α → SlabOutcome α → HandleMap UInt64 α → List α → Prop where
  | choose {v : α} : Outcome live storing (.choose v) .chosen live (storing ++ [v])
  /-- A value gets a handle that is not in use. -/
  | store {i : Nat} {v : α} {h : UInt64} (hv : storing[i]? = some v) (hpos : h ≠ 0)
      (hfree : h ∉ live) :
      Outcome live storing (.store i) (.stored h) (live.insert h v) (storing.eraseIdx i)
  | pop {h : UInt64} {v : α} (hlive : live.lookup h = some v) :
      Outcome live storing (.pop h) (.popped (some v)) (live.erase h) storing
  | popFree {h : UInt64} (hfree : h ∉ live) : Outcome live storing (.pop h) (.popped none)
      live storing

/-- What a map of handles answers to several threads that take turns. -/
inductive HandleMap.Outcomes : HandleMap UInt64 α → List α → List (SlabTurn α) →
    List (SlabOutcome α) →
    HandleMap UInt64 α → List α → Prop where
  | nil {live : HandleMap UInt64 α} {storing : List α} : Outcomes live storing [] [] live storing
  | cons {live mid live' : HandleMap UInt64 α} {storing storing' storing'' : List α}
      {turn : SlabTurn α}
      {outcome : SlabOutcome α} {turns : List (SlabTurn α)} {outcomes : List (SlabOutcome α)}
      (h : live.Outcome storing turn outcome mid storing')
      (hrest : Outcomes mid storing' turns outcomes live' storing'') :
      Outcomes live storing (turn :: turns) (outcome :: outcomes) live' storing''

namespace ShardedSlab

variable {s : ShardedSlab α} {live : HandleMap UInt64 α} {h : UInt64} {v : α}

/-- A sharded slab is sound, and a map has its values. -/
structure Serves (s : ShardedSlab α) (live : HandleMap UInt64 α) : Prop where
  sound : s.Sound
  describes : live.Describes s.get? s.len

theorem serves_ofBits (bits : Nat) : (ofBits bits : ShardedSlab α).Serves ∅ where
  sound := sound_ofBits bits
  describes := by
    have hlen : (ofBits bits : ShardedSlab α).len = 0 := (lists_ofBits bits).length_eq.symm
    rw [hlen]
    exact HandleMap.describes_empty (get?_ofBits bits)

namespace Serves

theorem get?_eq (hs : s.Serves live) (h : UInt64) : s.get? h = live.lookup h :=
  hs.describes.get?_eq h

theorem advance (hs : s.Serves live) : s.advance.2.Serves live := ⟨hs.sound.advance, hs.describes⟩

/-- A value that is stored in any shard gets a handle that is not in use. -/
theorem pushAt {i : Fin (1 <<< s.bits)} (hs : s.Serves live) (hf : (s.pushAt i v).2.Fits) :
    (s.pushAt i v).1 ≠ 0 ∧ (s.pushAt i v).1 ∉ live ∧
      (s.pushAt i v).2.Serves (live.insert (s.pushAt i v).1 v) := by
  have hfree := get?_fst_pushAt hs.sound hf
  refine ⟨fst_pushAt_ne_zero hs.sound hf, hs.describes.not_mem_iff.2 hfree, hs.sound.pushAt i v, ?_⟩
  exact hs.describes.insert hfree (get?_pushAt hs.sound hf) (s.len_pushAt i v)

/-- What is under a handle can be taken out once. -/
theorem pop (hs : s.Serves live) (hlive : live.lookup h = some v) :
    (s.pop h).1 = some v ∧ (s.pop h).2.Serves (live.erase h) := by
  have hget : s.get? h = some v := (hs.get?_eq h).trans hlive
  refine ⟨(fst_pop hs.sound h).trans hget, hs.sound.pop h, ?_⟩
  exact hs.describes.erase hget (get?_pop hs.sound h) (len_pop hs.sound hget)

/-- A handle that is not in use changes nothing. -/
theorem pop_of_not_mem (hs : s.Serves live) (hfree : h ∉ live) : s.pop h = (none, s) :=
  pop_of_get?_eq_none (hs.describes.not_mem_iff.1 hfree)

/-- A handle in use has a number other than 0 in its shard. -/
theorem innerOf_ne_zero (hs : s.Serves live) (hmem : h ∈ live) : s.innerOf h ≠ 0 := fun hzero ↦ by
  obtain ⟨v, hlive⟩ := Finmap.mem_iff.1 hmem
  rw [← hs.get?_eq h, ShardedSlab.get?_eq, hzero, (hs.sound _).get?_zero] at hlive
  cases hlive

/-- A shard holds the values whose handles lead to it. -/
theorem get?_shard_iff (hs : s.Serves live) (hf : s.Fits) (i : Fin (1 <<< s.bits))
    (j : Nat) (v : α) :
    (s.shard i).get? j = some v ↔
      ∃ h, s.shardOf h = i ∧ s.innerOf h = j ∧ live.lookup h = some v := by
  constructor
  · intro hget
    have hlt := slot_lt i (Slab.lt_size_of_get? hget) (hf i)
    have hshard := shardOf_handleOf hlt
    have hinner := innerOf_handleOf hlt
    refine ⟨s.handleOf i j, hshard, hinner, ?_⟩
    rw [← hs.get?_eq, ShardedSlab.get?_eq, hshard, hinner, hget]
  · rintro ⟨h, rfl, rfl, hlive⟩
    exact (hs.get?_eq h).trans hlive

end Serves

end ShardedSlab

namespace SharedSlab

variable {s s' : SharedSlab α} {live : HandleMap UInt64 α} {turn : SlabTurn α}
  {outcome : SlabOutcome α} {turns : List (SlabTurn α)} {outcomes : List (SlabOutcome α)}

/-- The values on their way into a shard. -/
def values (s : SharedSlab α) : List α := s.storing.map (·.2)

theorem step_choose_eq_some {v : α} (h : s.step (.choose v) = some (outcome, s')) :
    outcome = .chosen ∧ s' = ⟨s.slab.advance.2, s.storing ++ [(s.slab.cursor, v)]⟩ := by
  obtain ⟨rfl, rfl⟩ := Prod.mk.inj (Option.some.inj h)
  exact ⟨rfl, rfl⟩

/-- A thread whose turn it is to store a value has chosen a shard for it. -/
theorem step_store_eq_some {i : Nat} (h : s.step (.store i) = some (outcome, s')) :
    ∃ count v, s.storing[i]? = some (count, v) ∧
      outcome = .stored (s.slab.pushAt (s.slab.shardOf count) v).1 ∧
      s' = ⟨(s.slab.pushAt (s.slab.shardOf count) v).2, s.storing.eraseIdx i⟩ := by
  rw [step] at h
  obtain ⟨⟨count, v⟩, hv, heq⟩ := Option.map_eq_some_iff.1 h
  obtain ⟨rfl, rfl⟩ := Prod.mk.inj heq
  exact ⟨count, v, hv, rfl, rfl⟩

theorem step_pop_eq_some {handle : UInt64} (h : s.step (.pop handle) = some (outcome, s')) :
    outcome = .popped (s.slab.pop handle).1 ∧ s' = { s with slab := (s.slab.pop handle).2 } := by
  obtain ⟨rfl, rfl⟩ := Prod.mk.inj (Option.some.inj h)
  exact ⟨rfl, rfl⟩

/-- The handles only grow: a slab that fits after a turn has fitted before it. -/
theorem fits_of_step (h : s.step turn = some (outcome, s')) (hf : s'.slab.Fits) : s.slab.Fits := by
  match turn with
  | .choose v =>
    obtain ⟨-, rfl⟩ := step_choose_eq_some h
    exact hf
  | .store i =>
    obtain ⟨count, v, -, -, rfl⟩ := step_store_eq_some h
    exact hf.of_pushAt
  | .pop handle =>
    obtain ⟨-, rfl⟩ := step_pop_eq_some h
    exact hf.of_pop

theorem run?_cons_eq_some (h : s.run? (turn :: turns) = some (outcomes, s')) :
    ∃ outcome mid rest, s.step turn = some (outcome, mid) ∧ mid.run? turns = some (rest, s') ∧
      outcomes = outcome :: rest := by
  rw [run?] at h
  obtain ⟨⟨outcome, mid⟩, hstep, h⟩ := Option.bind_eq_some_iff.1 h
  obtain ⟨⟨rest, last⟩, hrun, h⟩ := Option.bind_eq_some_iff.1 h
  obtain ⟨rfl, rfl⟩ := Prod.mk.inj (Option.some.inj h)
  exact ⟨outcome, mid, rest, hstep, hrun, rfl⟩

/-- A slab that fits in the end always did. -/
theorem fits_of_run? (h : s.run? turns = some (outcomes, s')) (hf : s'.slab.Fits) :
    s.slab.Fits := by
  induction turns generalizing s outcomes with
  | nil =>
    obtain ⟨-, rfl⟩ := Prod.mk.inj (Option.some.inj h)
    exact hf
  | cons turn turns ih =>
    obtain ⟨outcome, mid, rest, hstep, hrun, -⟩ := run?_cons_eq_some h
    exact fits_of_step hstep (ih hrun)

/-- Each turn is answered as by the map, which then has the values of the slab again. -/
theorem exists_outcome (hs : s.slab.Serves live) (h : s.step turn = some (outcome, s'))
    (hf : s'.slab.Fits) :
    ∃ live', live.Outcome s.values turn outcome live' s'.values ∧ s'.slab.Serves live' := by
  match turn with
  | .choose v =>
    obtain ⟨rfl, rfl⟩ := step_choose_eq_some h
    have hvalues : values ⟨s.slab.advance.2, s.storing ++ [(s.slab.cursor, v)]⟩ = s.values ++ [v] :=
      List.map_append
    exact ⟨live, hvalues ▸ .choose, hs.advance⟩
  | .store i =>
    obtain ⟨count, v, hv, rfl, rfl⟩ := step_store_eq_some h
    -- the count that was taken may be an old one, but its shard gives a new handle
    obtain ⟨hpos, hfree, hserves⟩ := hs.pushAt hf
    have hvalue : s.values[i]? = some v := by
      rw [values, List.getElem?_map, hv, Option.map_some]
    have hvalues : values ⟨(s.slab.pushAt (s.slab.shardOf count) v).2, s.storing.eraseIdx i⟩ =
        s.values.eraseIdx i := (List.eraseIdx_map _ _ _).symm
    exact ⟨_, hvalues ▸ .store hvalue hpos hfree, hserves⟩
  | .pop handle =>
    obtain ⟨rfl, rfl⟩ := step_pop_eq_some h
    rcases hlive : live.lookup handle with - | v
    · have hfree : handle ∉ live := Finmap.lookup_eq_none.1 hlive
      rw [hs.pop_of_not_mem hfree]
      exact ⟨live, .popFree hfree, hs⟩
    · obtain ⟨hfst, hserves⟩ := hs.pop hlive
      rw [hfst]
      exact ⟨_, .pop hlive, hserves⟩

/-- A whole run of turns is answered as by a finite map, by induction on the run. -/
theorem exists_outcomes (hs : s.slab.Serves live) (h : s.run? turns = some (outcomes, s'))
    (hf : s'.slab.Fits) :
    ∃ live', live.Outcomes s.values turns outcomes live' s'.values ∧ s'.slab.Serves live' := by
  induction turns generalizing s live outcomes with
  | nil =>
    obtain ⟨rfl, rfl⟩ := Prod.mk.inj (Option.some.inj h)
    exact ⟨live, .nil, hs⟩
  | cons turn turns ih =>
    obtain ⟨outcome, mid, rest, hstep, hrun, rfl⟩ := run?_cons_eq_some h
    obtain ⟨live₁, houtcome, hmid⟩ := exists_outcome hs hstep (fits_of_run? hrun hf)
    obtain ⟨live₂, hrest, hend⟩ := ih hmid hrun
    exact ⟨live₂, .cons houtcome hrest, hend⟩

/-- **Sharded slabs are maps of handles, whoever uses them.** Take a sharded slab that has just been
made, and let threads store values in it and take values out in any order. If the slots' numbers fit
into handles, then the threads are answered as by a finite map from handles to values. At any moment
the two have the same values, each shard holds those whose handles lead to it, a handle that is not
in use changes nothing, and the number of handles is the length of the slab and the sum of those of
its shards. -/
theorem outcomes_run? {shards : Nat} {slab : ShardedSlab α}
    (hnew : ShardedSlab.new shards = .ok slab) (hrun : (idle slab).run? turns = some (outcomes, s))
    (hf : s.slab.Fits) :
    ∃ live : HandleMap UInt64 α,
      (∅ : HandleMap UInt64 α).Outcomes [] turns outcomes live s.values ∧
      (∀ h, s.slab.get? h = live.lookup h) ∧
      (∀ i j v, (s.slab.shard i).get? j = some v ↔
        ∃ h, s.slab.shardOf h = i ∧ s.slab.innerOf h = j ∧ live.lookup h = some v) ∧
      (∀ h ∈ live, s.slab.innerOf h ≠ 0) ∧
      (∀ h ∉ live, s.slab.pop h = (none, s.slab)) ∧
      s.slab.len = live.keys.card ∧
      s.slab.shardLens.sum = live.keys.card := by
  have hserves : slab.Serves ∅ := by
    rw [ShardedSlab.new] at hnew
    split at hnew
    · exact Except.ok.inj hnew ▸ ShardedSlab.serves_ofBits _
    · cases hnew
  obtain ⟨live, houtcomes, hend⟩ := exists_outcomes (s := idle slab) hserves hrun hf
  have hlen := hend.describes.len_eq
  exact ⟨live, houtcomes, hend.get?_eq, hend.get?_shard_iff hf, fun h ↦ hend.innerOf_ne_zero,
    fun h ↦ hend.pop_of_not_mem, hlen, hlen⟩

/-- Three threads and two shards: the second thread overtakes the first, and the third one uses a
slot again that was freed in between. -/
def overtaking : List (SlabTurn Nat) :=
  [.choose 10, .choose 20, .store 1, .choose 30, .pop 3, .pop 2, .store 0, .pop 2, .store 0, .pop 0,
    .pop 1, .choose 40]

theorem outcomes_overtaking :
    ∃ slab : ShardedSlab Nat, ShardedSlab.new 2 = .ok slab ∧ ∃ s : SharedSlab Nat,
      (idle slab).run? overtaking = some ([.chosen, .chosen, .stored 3, .chosen, .popped (some 20),
        .popped none, .stored 2, .popped (some 10), .stored 2, .popped none, .popped none,
        .chosen], s) ∧
      s.slab.Fits ∧ s.values = [40] ∧ s.slab.len = 1 ∧
      ∃ live : HandleMap UInt64 Nat, live.keys.card = 1 ∧ live.lookup 2 = some 30 ∧
        ∀ h ∉ live, s.slab.pop h = (none, s.slab) := by
  let s : SharedSlab Nat := (((idle (.ofBits 1)).run? overtaking).get (by decide)).2
  have hnew : ShardedSlab.new 2 = .ok (.ofBits 1 : ShardedSlab Nat) := rfl
  have hrun : (idle (.ofBits 1)).run? overtaking = some ([.chosen, .chosen, .stored 3, .chosen,
      .popped (some 20), .popped none, .stored 2, .popped (some 10), .stored 2, .popped none,
      .popped none, .chosen], s) := rfl
  have hfits : s.slab.Fits := by decide
  have hlen : s.slab.len = 1 := rfl
  obtain ⟨live, -, hget, -, -, hpop, hcard, -⟩ := outcomes_run? hnew hrun hfits
  exact ⟨_, hnew, s, hrun, hfits, rfl, hlen, live, hcard.symm.trans hlen,
    (hget 2).symm.trans (by decide), hpop⟩

end SharedSlab

end RingCall
