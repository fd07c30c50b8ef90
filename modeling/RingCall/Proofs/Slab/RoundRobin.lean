import Mathlib.Data.Int.CardIntervalMod
import RingCall.Proofs.Slab.Sharing

/-!
# Shards take turns

Where a value goes is settled when its thread chooses a shard, and the counter alone decides that.
So the shards that the values of a run go to are known from the number of values, but for their
order: they are those that the counter leads to, starting from where it stood
(`SharedSlab.perm_destinations`). No shard gets more than its share of them (`countP_turns`), and a
single thread meets the shards in turn (`SharedSlab.exists_run?_of_pushes`).

A shard without free slots numbers its values one after the other. If nothing is taken out then no
slot ever becomes free, so that the handles a shard gives out are known from their number
(`SharedSlab.filter_handles`). Two runs that store equally many values in a new slab hence give out
the same handles, whichever thread overtakes which between choosing a shard and storing a value
there (`SharedSlab.destinations_run?`).
-/

namespace RingCall

variable {α : Type}

/-! ### Shares -/

/-- Of `n` turns that start anywhere, each of `m` places gets its share, rounded down or up. -/
theorem countP_turns {m i : Nat} (start n : Nat) (hi : i < m) :
    (List.range n).countP (fun k ↦ (start + k) % m = i) = n / m ∨
      (List.range n).countP (fun k ↦ (start + k) % m = i) = (n + m - 1) / m := by
  have hm : 0 < m := Nat.zero_lt_of_lt hi
  -- the turns of a place are those that differ from one of them by whole rounds
  obtain ⟨v, hv⟩ : ∃ v, (start + v) % m = i := by
    refine ⟨i + (m - start % m), ?_⟩
    have hround : start + (i + (m - start % m)) = i + m * (start / m + 1) := by
      have hdiv := Nat.div_add_mod start m
      have hlt := Nat.mod_lt start hm
      rw [Nat.mul_succ]
      omega
    rw [hround, Nat.add_mul_mod_self_left, Nat.mod_eq_of_lt hi]
  have hturn : ∀ k, (start + k) % m = i ↔ k ≡ v [MOD m] := fun k ↦ by
    rw [← hv]
    exact ⟨Nat.ModEq.add_left_cancel' start, Nat.ModEq.add_left start⟩
  have hcount : (List.range n).countP (fun k ↦ (start + k) % m = i) = n.count (· ≡ v [MOD m]) := by
    simp only [hturn]
    rfl
  rw [hcount, Nat.count_modEq_card n hm]
  split
  · next hlt =>
    right
    have hsplit : n + m - 1 = n % m - 1 + m * (n / m + 1) := by
      have hdiv := Nat.div_add_mod n m
      rw [Nat.mul_succ]
      omega
    have hsmall : n % m - 1 < m := Nat.lt_of_le_of_lt (Nat.sub_le _ _) (Nat.mod_lt n hm)
    rw [hsplit, Nat.add_mul_div_left _ _ hm, Nat.div_eq_of_lt hsmall, Nat.zero_add]
  · exact .inl rfl

/-! ### Turns, handles and the shards they lead to -/

/-- Whether a thread chooses a shard for a value. -/
def SlabTurn.isChoose : SlabTurn α → Bool
  | choose _ => true
  | store _ | pop _ => false

/-- Whether a thread takes a value out. -/
def SlabTurn.isPop : SlabTurn α → Bool
  | pop _ => true
  | choose _ | store _ => false

/-- The handle that a thread is answered for its value. -/
def SlabOutcome.handle? : SlabOutcome α → Option UInt64
  | stored handle => some handle
  | chosen | popped _ => none

/-- The turns in which one thread stores values, one after the other. -/
def SlabTurn.pushes (vs : List α) : List (SlabTurn α) :=
  vs.flatMap fun v ↦ [choose v, store 0]

/-- The handles that threads are answered, in turn. -/
def handles (outcomes : List (SlabOutcome α)) : List UInt64 :=
  outcomes.filterMap SlabOutcome.handle?

namespace ShardedSlab

variable {s : ShardedSlab α}

/-- The shards that values go to: those of the handles, and those chosen for values on their way. -/
def destinations (s : ShardedSlab α) (outcomes : List (SlabOutcome α))
    (storing : List (UInt64 × α)) :
    List Nat :=
  (handles outcomes ++ storing.map (·.1)).map fun w ↦ (s.shardOf w : Nat)

/-- The shards in turn, from the one that the counter leads to. -/
def upcoming (s : ShardedSlab α) (n : Nat) : List Nat :=
  (List.range n).map fun k ↦ (s.cursor.toNat + k) % s.shardCount

theorem shardCount_eq (s : ShardedSlab α) : s.shardCount = 2 ^ s.bits := Nat.one_shiftLeft _

theorem bits_lt (hword : s.shardCount < UInt64.size) : s.bits < 64 := by
  rw [shardCount_eq] at hword
  exact (Nat.pow_lt_pow_iff_right (by decide)).1 hword

/-- The shards stay in turn where the counter wraps around. -/
theorem upcoming_succ (hbits : s.bits < 64) (n : Nat) :
    s.upcoming (n + 1) = (s.shardOf s.cursor : Nat) :: s.advance.2.upcoming n := by
  have hdvd : 2 ^ s.bits ∣ 2 ^ 64 := Nat.pow_dvd_pow 2 (Nat.le_of_lt hbits)
  rw [upcoming, List.range_succ_eq_map, List.map_cons, List.map_map]
  refine congrArg₂ _ (by rw [val_shardOf, shardCount_eq, Nat.add_zero])
    (List.map_congr_left fun k _ ↦ ?_)
  show (s.cursor.toNat + (k + 1)) % s.shardCount = ((s.cursor + 1).toNat + k) % s.shardCount
  rw [UInt64.toNat_add, UInt64.toNat_one, shardCount_eq, Nat.add_mod (_ % 2 ^ 64),
    Nat.mod_mod_of_dvd _ hdvd, ← Nat.add_mod, Nat.add_right_comm, Nat.add_assoc]

/-- A handle leads to the shard that it was made for, even if the number in the shard does not
fit. -/
theorem shardOf_handleOf_of_lt (hbits : s.bits < 64) (i : Fin (1 <<< s.bits)) (inner : Nat) :
    s.shardOf (s.handleOf i inner) = i := by
  have hdvd : 2 ^ s.bits ∣ 2 ^ 64 := Nat.pow_dvd_pow 2 (Nat.le_of_lt hbits)
  apply Fin.ext
  rw [val_shardOf, handleOf, Nat.shiftLeft_eq, UInt64.toNat_ofNat', Nat.mod_mod_of_dvd _ hdvd,
    Nat.mul_add_mod_self_right, Nat.mod_eq_of_lt (lt_two_pow_bits i)]

theorem eq_ofBits_of_new {bits : Nat} (h : new (2 ^ bits) = .ok s) : s = ofBits bits := by
  rw [new] at h
  split at h
  · rw [← Except.ok.inj h, Nat.log2_two_pow]
  · cases h

/-- No shard has a free slot. -/
def Compact (s : ShardedSlab α) : Prop := ∀ i, (s.shard i).next = 0

theorem compact_ofBits (bits : Nat) : (ofBits bits : ShardedSlab α).Compact := fun i ↦
  congrArg Slab.next (shard_ofBits bits i)

/-- A push at a shard shows in that shard alone. -/
theorem shard_pushAt (s : ShardedSlab α) (i j : Fin (1 <<< s.bits)) (v : α) :
    (s.pushAt i v).2.shard j = if j = i then ((s.shard i).push v).2 else s.shard j :=
  s.shard_replace i j _ _

/-- A shard without free slots numbers a value by its size. -/
theorem Compact.fst_pushAt (hs : s.Compact) (i : Fin (1 <<< s.bits)) (v : α) :
    (s.pushAt i v).1 = s.handleOf i (s.shard i).slots.size := by
  rw [pushAt_eq, Slab.push_of_next_eq_zero (hs i)]

theorem Compact.pushAt (hs : s.Compact) (i : Fin (1 <<< s.bits)) (v : α) :
    (s.pushAt i v).2.Compact := by
  have hnext : ((s.shard i).push v).2.next = 0 := by rw [Slab.push_of_next_eq_zero (hs i)]
  exact forall_shard_replace (P := fun _ slab ↦ slab.next = 0) hnext fun j _ ↦ hs j

/-- In a compact slab every push at a shard opens one new slot there. -/
theorem Compact.size_pushAt (hs : s.Compact) (i j : Fin (1 <<< s.bits)) (v : α) :
    ((s.pushAt i v).2.shard j).slots.size = (s.shard j).slots.size + if j = i then 1 else 0 := by
  rw [shard_pushAt]
  split
  · next hj => rw [hj, Slab.push_of_next_eq_zero (hs i), Array.size_push]
  · rfl

end ShardedSlab

namespace SharedSlab

variable {s s' : SharedSlab α} {turn : SlabTurn α} {turns : List (SlabTurn α)}
  {outcome : SlabOutcome α} {outcomes : List (SlabOutcome α)}

/-! ### Where the values of a run go -/

/-- **The counter decides where values go.** Up to the order, the shards that the values of a run go
to are those already chosen and those that the counter leads to next. -/
theorem perm_destinations (hbits : s.slab.bits < 64) (h : s.run? turns = some (outcomes, s')) :
    (s.slab.destinations outcomes s'.storing).Perm
      (s.slab.destinations [] s.storing ++ s.slab.upcoming (turns.countP SlabTurn.isChoose)) := by
  induction turns generalizing s outcomes with
  | nil =>
    obtain ⟨rfl, rfl⟩ := Prod.mk.inj (Option.some.inj h)
    exact .of_eq (List.append_nil _).symm
  | cons turn turns ih =>
    obtain ⟨outcome, mid, rest, hstep, hrun, rfl⟩ := run?_cons_eq_some h
    match turn with
    | .choose v =>
      obtain ⟨rfl, rfl⟩ := step_choose_eq_some hstep
      have hrest := ih (s := ⟨s.slab.advance.2, s.storing ++ [(s.slab.cursor, v)]⟩) hbits hrun
      -- the shard that was chosen is the next one in turn
      have hchosen : s.slab.advance.2.destinations [] (s.storing ++ [(s.slab.cursor, v)]) =
          s.slab.destinations [] s.storing ++ [(s.slab.shardOf s.slab.cursor : Nat)] := by
        simp only [ShardedSlab.destinations, handles, List.filterMap_nil, List.nil_append,
          List.map_append]
        rfl
      have hturns : s.slab.upcoming ((.choose v :: turns).countP SlabTurn.isChoose) =
          (s.slab.shardOf s.slab.cursor : Nat) ::
            s.slab.advance.2.upcoming (turns.countP SlabTurn.isChoose) := by
        rw [List.countP_cons_of_pos rfl, ShardedSlab.upcoming_succ hbits]
      rw [hturns, List.append_cons, ← hchosen]
      exact hrest
    | .store i =>
      obtain ⟨count, v, hi, rfl, rfl⟩ := step_store_eq_some hstep
      have hrest := ih (s := ⟨(s.slab.pushAt (s.slab.shardOf count) v).2, s.storing.eraseIdx i⟩)
        hbits hrun
      -- the value leaves the list and gets a handle of the shard that was chosen
      have hhandle : s.slab.destinations
          (.stored (s.slab.pushAt (s.slab.shardOf count) v).1 :: rest) s'.storing =
            (s.slab.shardOf count : Nat) :: s.slab.destinations rest s'.storing := by
        have hshard := ShardedSlab.shardOf_handleOf_of_lt hbits (s.slab.shardOf count)
          ((s.slab.shard (s.slab.shardOf count)).push v).1
        exact congrArg (fun i : Fin _ ↦ (i : Nat) :: s.slab.destinations rest s'.storing) hshard
      have hstoring : (s.slab.destinations [] s.storing).Perm
          ((s.slab.shardOf count : Nat) :: s.slab.destinations [] (s.storing.eraseIdx i)) := by
        obtain ⟨hlt, hget⟩ := List.getElem?_eq_some_iff.1 hi
        have hperm := (List.getElem_cons_eraseIdx_perm hlt).symm
        rw [hget] at hperm
        exact (hperm.map (·.1)).map _
      rw [hhandle, List.countP_cons_of_neg (by exact Bool.false_ne_true)]
      exact ((hrest.cons _).trans (.of_eq (List.cons_append ..).symm)).trans
        (hstoring.symm.append_right _)
    | .pop handle =>
      obtain ⟨rfl, rfl⟩ := step_pop_eq_some hstep
      have hrest := ih (s := { s with slab := (s.slab.pop handle).2 }) hbits hrun
      rw [List.countP_cons_of_neg (by exact Bool.false_ne_true)]
      exact hrest

/-! ### One thread -/

theorem run?_cons_of_step {mid : SharedSlab α} (hstep : s.step turn = some (outcome, mid))
    (hrun : mid.run? turns = some (outcomes, s')) :
    s.run? (turn :: turns) = some (outcome :: outcomes, s') := by
  rw [run?, hstep]
  show (mid.run? turns).bind _ = _
  rw [hrun]
  rfl

/-- **A single thread that stores values meets the shards in turn**, whatever is taken out in
between. The thread may have chosen a shard already. -/
theorem exists_run?_of_pushes {slab : ShardedSlab α} (hbits : slab.bits < 64) {vs : List α}
    {held : Option (UInt64 × α)}
    (h : turns.filter (!·.isPop) = held.toList.map (fun _ ↦ .store 0) ++ SlabTurn.pushes vs) :
    ∃ outcomes slab', (⟨slab, held.toList⟩ : SharedSlab α).run? turns = some
      (outcomes, idle slab') ∧
      (handles outcomes).map (fun h ↦ (slab.shardOf h : Nat)) =
        held.toList.map (fun p ↦ (slab.shardOf p.1 : Nat)) ++ slab.upcoming vs.length := by
  induction turns generalizing slab held vs with
  | nil =>
    match held, vs with
    | none, [] => exact ⟨[], slab, rfl, rfl⟩
    | none, v :: vs => cases h
    | some p, vs => cases h
  | cons turn turns ih =>
    match turn with
    | .pop handle =>
      obtain ⟨outcomes, slab', hrun, hshards⟩ := @ih (slab.pop handle).2 hbits _ held h
      exact ⟨_, slab', run?_cons_of_step rfl hrun, hshards⟩
    | .choose v =>
      match held, vs with
      | none, w :: vs =>
        obtain ⟨hv, hrest⟩ := List.cons.inj h
        obtain rfl := SlabTurn.choose.inj hv
        obtain ⟨outcomes, slab', hrun, hshards⟩ :=
          @ih slab.advance.2 hbits _ (some (slab.cursor, v)) hrest
        refine ⟨_, slab', run?_cons_of_step rfl hrun, ?_⟩
        rw [List.length_cons, ShardedSlab.upcoming_succ hbits]
        exact hshards
      | none, [] => cases h
      | some p, vs => cases h
    | .store i =>
      match held, vs with
      | none, [] => cases h
      | none, v :: vs => cases h
      | some (count, v), vs =>
        obtain ⟨hi, hrest⟩ := List.cons.inj h
        obtain rfl := SlabTurn.store.inj hi
        obtain ⟨outcomes, slab', hrun, hshards⟩ :=
          @ih (slab.pushAt (slab.shardOf count) v).2 hbits _ none hrest
        have hshard : slab.shardOf (slab.pushAt (slab.shardOf count) v).1 = slab.shardOf count :=
          ShardedSlab.shardOf_handleOf_of_lt hbits _ _
        refine ⟨_, slab', run?_cons_of_step rfl hrun, ?_⟩
        exact congrArg₂ List.cons (congrArg Fin.val hshard) hshards

/-! ### The handles of a new slab -/

/-- **Shards without free slots number their values one after the other**, as long as nothing is
taken out. -/
theorem filter_handles (hbits : s.slab.bits < 64) (hs : s.slab.Compact)
    (hkeep : ∀ turn ∈ turns, turn.isPop = false) (h : s.run? turns = some (outcomes, s'))
    (i : Fin (1 <<< s.slab.bits)) :
    ∃ n, (handles outcomes).filter (fun h ↦ s.slab.shardOf h = i) =
      (List.range' (s.slab.shard i).slots.size n).map (s.slab.handleOf i) := by
  induction turns generalizing s outcomes with
  | nil =>
    obtain ⟨rfl, -⟩ := Prod.mk.inj (Option.some.inj h)
    exact ⟨0, rfl⟩
  | cons turn turns ih =>
    obtain ⟨hturn, hrest⟩ := List.forall_mem_cons.1 hkeep
    obtain ⟨outcome, mid, rest, hstep, hrun, rfl⟩ := run?_cons_eq_some h
    match turn with
    | .choose v =>
      obtain ⟨rfl, rfl⟩ := step_choose_eq_some hstep
      exact ih (s := ⟨s.slab.advance.2, s.storing ++ [(s.slab.cursor, v)]⟩) hbits hs hrest hrun i
    | .store p =>
      obtain ⟨count, v, -, rfl, rfl⟩ := step_store_eq_some hstep
      obtain ⟨n, hn⟩ := ih (s := ⟨(s.slab.pushAt (s.slab.shardOf count) v).2, s.storing.eraseIdx p⟩)
        hbits (hs.pushAt _ v) hrest hrun i
      have hsize := hs.size_pushAt (s.slab.shardOf count) i v
      have hcons : handles (.stored (s.slab.pushAt (s.slab.shardOf count) v).1 :: rest) =
          s.slab.handleOf (s.slab.shardOf count) (s.slab.shard (s.slab.shardOf count)).slots.size ::
            handles rest := by
        rw [← hs.fst_pushAt _ v]
        rfl
      have hleads := ShardedSlab.shardOf_handleOf_of_lt hbits (s.slab.shardOf count)
        (s.slab.shard (s.slab.shardOf count)).slots.size
      rw [hcons]
      -- only the shard that was chosen gives out a handle
      by_cases hi : i = s.slab.shardOf count
      · subst hi
        refine ⟨n + 1, ?_⟩
        rw [if_pos rfl] at hsize
        rw [List.filter_cons_of_pos (by simpa using hleads), List.range'_succ,
          List.map_cons, ← hsize]
        exact congrArg _ hn
      · refine ⟨n, ?_⟩
        rw [if_neg hi] at hsize
        rw [List.filter_cons_of_neg (by simpa [hleads] using Ne.symm hi),
          ← Nat.add_zero (Array.size _), ← hsize]
        exact hn
    | .pop handle => cases hturn

/-- When no value is on its way any more, a shard has given out as many handles as the counter came
by. -/
theorem filter_handles_of_done {slab : ShardedSlab α} (hbits : slab.bits < 64) (hs : slab.Compact)
    (hkeep : ∀ turn ∈ turns, turn.isPop = false) (h : (idle slab).run? turns = some (outcomes, s))
    (hdone : s.storing = []) (i : Fin (1 <<< slab.bits)) :
    (handles outcomes).filter (fun h ↦ slab.shardOf h = i) =
      (List.range' (slab.shard i).slots.size
        ((slab.upcoming (turns.countP SlabTurn.isChoose)).count (i : Nat))).map
          (slab.handleOf i) := by
  obtain ⟨n, hn⟩ := filter_handles (s := idle slab) hbits hs hkeep h i
  have hperm : ((handles outcomes).map fun h ↦ (slab.shardOf h : Nat)).Perm
      (slab.upcoming (turns.countP SlabTurn.isChoose)) := by
    have hgo := perm_destinations (s := idle slab) hbits h
    rwa [hdone, ShardedSlab.destinations, List.map_nil, List.append_nil] at hgo
  have hcount : (handles outcomes).countP (fun h ↦ slab.shardOf h = i) =
      (slab.upcoming (turns.countP SlabTurn.isChoose)).count (i : Nat) := by
    rw [← hperm.count_eq, List.count, List.countP_map]
    refine List.countP_congr fun h _ ↦ ?_
    simp [Fin.ext_iff]
  have hlength : (handles outcomes).countP (fun h ↦ slab.shardOf h = i) = n := by
    rw [List.countP_eq_length_filter]
    exact (congrArg List.length hn).trans (by rw [List.length_map, List.length_range'])
  rw [← hcount, hlength]
  exact hn

/-- The handles of a run in which nothing was taken out and no value is on its way any more. -/
theorem mem_handles_iff {slab : ShardedSlab α} (hbits : slab.bits < 64) (hs : slab.Compact)
    (hkeep : ∀ turn ∈ turns, turn.isPop = false) (h : (idle slab).run? turns = some (outcomes, s))
    (hdone : s.storing = []) (handle : UInt64) :
    handle ∈ handles outcomes ↔ ∃ (i : Fin (1 <<< slab.bits)) (j : Nat),
      (slab.shard i).slots.size ≤ j ∧
      j < (slab.shard i).slots.size +
          (slab.upcoming (turns.countP SlabTurn.isChoose)).count (i : Nat) ∧
      handle = slab.handleOf i j := by
  have hnumbers := filter_handles_of_done hbits hs hkeep h hdone
  constructor
  · intro hmem
    have hin : handle ∈ (handles outcomes).filter fun h ↦ slab.shardOf h = slab.shardOf handle :=
      List.mem_filter.2 ⟨hmem, decide_eq_true rfl⟩
    rw [hnumbers] at hin
    obtain ⟨j, hj, hhandle⟩ := List.mem_map.1 hin
    obtain ⟨hle, hlt⟩ := List.mem_range'_1.1 hj
    exact ⟨slab.shardOf handle, j, hle, hlt, hhandle.symm⟩
  · rintro ⟨i, j, hle, hlt, rfl⟩
    have hin := List.mem_map_of_mem (f := slab.handleOf i) (List.mem_range'_1.2 ⟨hle, hlt⟩)
    rw [← hnumbers] at hin
    exact (List.mem_filter.1 hin).1

/-- The handles of a slab that was new, as numbers. -/
theorem mem_handles_iff_of_new {bits : Nat} (hbits : bits < 64)
    (hkeep : ∀ turn ∈ turns, turn.isPop = false) (h :
      (idle (.ofBits bits)).run? turns = some (outcomes, s)) (hdone : s.storing = [])
        (handle : UInt64) :
    handle ∈ handles outcomes ↔ ∃ i < 2 ^ bits, ∃ j, 1 ≤ j ∧
      j ≤ (List.range (turns.countP SlabTurn.isChoose)).countP (fun k ↦ k % 2 ^ bits = i) ∧
      handle = UInt64.ofNat ((j <<< bits) ||| i) := by
  let slab : ShardedSlab α := .ofBits bits
  have hsize : ∀ i, (slab.shard i).slots.size = 1 := fun i ↦ by
    rw [ShardedSlab.shard_ofBits bits i]
    rfl
  have hcount : ∀ i : Nat, (slab.upcoming (turns.countP SlabTurn.isChoose)).count i =
      (List.range (turns.countP SlabTurn.isChoose)).countP fun k ↦ k % 2 ^ bits = i := fun i ↦ by
    rw [ShardedSlab.upcoming, List.count, List.countP_map, ShardedSlab.shardCount_eq]
    refine List.countP_congr fun k _ ↦ ?_
    rw [Function.comp_apply, beq_iff_eq, decide_eq_true_iff]
    exact iff_of_eq (congrArg (· % 2 ^ bits = i) (Nat.zero_add k))
  have hhandle : ∀ (i : Fin (1 <<< bits)) (j : Nat),
      slab.handleOf i j = UInt64.ofNat ((j <<< bits) ||| i) :=
    fun i j ↦
      congrArg UInt64.ofNat (Nat.shiftLeft_add_eq_or_of_lt (ShardedSlab.lt_two_pow_bits i) j)
  rw [mem_handles_iff hbits (ShardedSlab.compact_ofBits bits) hkeep h hdone]
  constructor
  · rintro ⟨i, j, hpos, hlt, rfl⟩
    rw [hsize] at hpos hlt
    rw [hcount] at hlt
    exact ⟨i, ShardedSlab.lt_two_pow_bits i, j, hpos, by omega, hhandle i j⟩
  · rintro ⟨i, hi, j, hpos, hle, rfl⟩
    have hi' : i < 1 <<< bits := by rwa [Nat.one_shiftLeft]
    refine ⟨⟨i, hi'⟩, j, ?_, ?_, (hhandle ⟨i, hi'⟩ j).symm⟩
    · rwa [hsize]
    · rw [hsize, hcount]
      exact Nat.lt_one_add_iff.2 hle

/-- **Shards get their turns.** Take a power of two for the number of shards, and let threads use
the slab in any order. Wherever the counter stood, each shard is chosen for its share of the values,
rounded down or up. A thread that has the slab to itself meets the shards in turn, whatever it takes
out in between. And if the slab is new and nothing is taken out of it, then the handles are those
numbered from 1 on in each shard, as many as there are rounds in which the shard had its turn. -/
theorem destinations_run? {bits : Nat} (hbits : bits < 64) :
    (∀ slab : ShardedSlab α, slab.shardCount = 2 ^ bits →
      (∀ turns outcomes s, (idle slab).run? turns = some (outcomes, s) →
        let n := turns.countP SlabTurn.isChoose
        let chosen := slab.destinations outcomes s.storing
        ∀ i < 2 ^ bits, chosen.count i = n / 2 ^ bits ∨
        chosen.count i = (n + 2 ^ bits - 1) / 2 ^ bits) ∧
      ∀ turns vs, turns.filter (!·.isPop) = SlabTurn.pushes vs →
        ∃ outcomes slab', (idle slab).run? turns = some (outcomes, idle slab') ∧
          (handles outcomes).map (fun h ↦ (slab.shardOf h : Nat)) =
            (List.range vs.length).map fun k ↦ (slab.cursor.toNat + k) % 2 ^ bits) ∧
    ∀ slab : ShardedSlab α, ShardedSlab.new (2 ^ bits) = .ok slab →
      ∀ turns outcomes s, (idle slab).run? turns = some (outcomes, s) →
        (∀ turn ∈ turns, turn.isPop = false) → s.storing = [] →
        ∀ handle, handle ∈ handles outcomes ↔ ∃ i < 2 ^ bits, ∃ j, 1 ≤ j ∧
          j ≤ (List.range (turns.countP SlabTurn.isChoose)).countP (fun k ↦ k % 2 ^ bits = i) ∧
          handle = UInt64.ofNat ((j <<< bits) ||| i) := by
  refine ⟨fun slab hcount ↦ ?_, fun slab hnew turns outcomes s hrun hkeep hdone ↦ ?_⟩
  · have hslab : slab.bits < 64 := by
      refine ShardedSlab.bits_lt ?_
      rw [hcount]
      exact Nat.pow_lt_pow_right (by decide) hbits
    refine ⟨?_, fun turns vs hpushes ↦ ?_⟩
    · intro turns outcomes s hrun n chosen i hi
      have hturns : chosen.count i =
          (List.range n).countP fun k ↦ (slab.cursor.toNat + k) % 2 ^ bits = i := by
        -- who stores when makes no difference to how often a shard is chosen
        have hperm : chosen.Perm (slab.upcoming n) := perm_destinations (s := idle slab) hslab hrun
        rw [hperm.count_eq, ShardedSlab.upcoming, hcount, List.count, List.countP_map]
        rfl
      rw [hturns]
      exact countP_turns _ n hi
    · obtain ⟨outcomes, slab', hrun, hshards⟩ := @exists_run?_of_pushes _ turns slab hslab vs
        none hpushes
      rw [ShardedSlab.upcoming, hcount] at hshards
      exact ⟨outcomes, slab', hrun, hshards⟩
  · obtain rfl := ShardedSlab.eq_ofBits_of_new hnew
    exact mem_handles_iff_of_new hbits hkeep hrun hdone

/-- The second thread overtakes the first one, and so does the third. -/
def overtakingTwice : List (SlabTurn Nat) :=
  [.choose 10, .choose 20, .store 1, .choose 30, .store 1, .store 0]

/-- Two empty shards and a counter that is about to wrap around. -/
def worn : ShardedSlab Nat := { ShardedSlab.ofBits 1 with cursor := 18446744073709551615 }

theorem destinations_run?_overtakingTwice :
    1 < 64 ∧ worn.shardCount = 2 ∧ ShardedSlab.new 2 = .ok (.ofBits 1 : ShardedSlab Nat) ∧
      (∃ s, (idle worn).run? overtakingTwice =
          some ([.chosen, .chosen, .stored 2, .chosen, .stored 3, .stored 5], s) ∧
        let chosen := worn.destinations
          [.chosen, .chosen, .stored 2, .chosen, .stored 3, .stored 5] s.storing
        (chosen.count 1 = 1 ∨ chosen.count 1 = 2)) ∧
      (∃ outcomes slab,
            (idle worn).run? [.choose 10, .store 0, .choose 20, .pop 3, .store 0, .pop 2,
              .choose 30, .store 0] = some (outcomes, idle slab) ∧
        (handles outcomes).map (fun h ↦ (worn.shardOf h : Nat)) = [1, 0, 1]) ∧
      ∃ s, (idle (.ofBits 1)).run? overtakingTwice =
          some ([.chosen, .chosen, .stored 3, .chosen, .stored 2, .stored 4], s) ∧ s.storing = [] ∧
        ∀ handle, handle ∈ [(3 : UInt64), 2, 4] ↔ ∃ i < 2, ∃ j, 1 ≤ j ∧
          j ≤ (List.range 3).countP (fun k ↦ k % 2 = i) ∧
          handle = UInt64.ofNat ((j <<< 1) ||| i) := by
  have hbits : 1 < 64 := by decide
  obtain ⟨hworn, hnew⟩ := destinations_run? (α := Nat) hbits
  obtain ⟨hshares, hthread⟩ := hworn worn rfl
  let last : SharedSlab Nat := (((idle (.ofBits 1)).run? overtakingTwice).get (by decide)).2
  let lastWorn : SharedSlab Nat := (((idle worn).run? overtakingTwice).get (by decide)).2
  have hrun : (idle (.ofBits 1)).run? overtakingTwice =
    some ([.chosen, .chosen, .stored 3, .chosen, .stored 2, .stored 4], last) := rfl
  have hrunWorn : (idle worn).run? overtakingTwice =
    some ([.chosen, .chosen, .stored 2, .chosen, .stored 3, .stored 5], lastWorn) := rfl
  exact ⟨hbits, rfl, rfl, ⟨lastWorn, hrunWorn, hshares _ _ _ hrunWorn 1 (by decide)⟩,
    hthread _ [10, 20, 30] rfl, last, hrun, rfl,
    hnew (.ofBits 1) rfl _ _ _ hrun (by decide) rfl⟩

end SharedSlab

end RingCall
