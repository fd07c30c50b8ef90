import Mathlib.Data.Finmap
import RingCall.Proofs.Slab.Contents

/-!
# Slabs are maps of handles

What a slab answers is what a finite map from handles to values would (`Slab.answers_run`), whatever
is done with it and whatever numbers it is asked about. `HandleMap.Answer` says what such a map
answers to a use. It leaves one thing open, namely which handle a value gets: any but 0 that is not
in use will do. So the order in which a slab uses its slots again does not show here.

A map describes a slab if the two have the same values under the same handles and the slab's length
is the number of handles (`HandleMap.Describes`). Each use preserves this (`Slab.exists_answer`),
because a slab is sound: a handle that is handed out is not in use, and only what is stored can be
taken out.
-/

namespace RingCall

/-- The values that are stored, each under its handle. -/
abbrev HandleMap (H α : Type) := Finmap fun _ : H ↦ α

variable {H α : Type}

namespace HandleMap

variable [DecidableEq H] {live : HandleMap H α} {get? get?' : H → Option α} {len len' : Nat} {h : H}
  {v : α}

/-- A map has the values that are found under their handles, and as many as are counted. -/
structure Describes (live : HandleMap H α) (get? : H → Option α) (len : Nat) : Prop where
  get?_eq : ∀ h, get? h = live.lookup h
  len_eq : len = live.keys.card

/-- A handle is not in use if nothing is found under it. -/
theorem Describes.not_mem_iff (hd : live.Describes get? len) : h ∉ live ↔ get? h = none := by
  rw [hd.get?_eq, Finmap.lookup_eq_none]

/-- A container without values is described by the empty map. -/
theorem describes_empty (hget : ∀ h, get? h = none) : (∅ : HandleMap H α).Describes get? 0 :=
  ⟨fun h ↦ by rw [hget h, Finmap.lookup_empty], rfl⟩

/-- A value is stored under a handle that is not in use. -/
theorem Describes.insert (hd : live.Describes get? len) (hfree : get? h = none)
    (hget : ∀ k, get?' k = if k = h then some v else get? k) (hlen : len' = len + 1) :
    HandleMap.Describes (live.insert h v) get?' len' where
  get?_eq k := by
    rw [hget]
    split
    · next heq => rw [heq, Finmap.lookup_insert]
    · next hne => rw [Finmap.lookup_insert_of_ne live hne, hd.get?_eq]
  len_eq := by
    have hnotin : h ∉ live.keys := fun hmem ↦ hd.not_mem_iff.2 hfree (Finmap.mem_keys.1 hmem)
    have hkeys : (Finmap.insert h v live).keys = Insert.insert h live.keys := by
      ext k
      rw [Finmap.mem_keys, Finmap.mem_insert, Finset.mem_insert, Finmap.mem_keys]
    rw [hkeys, Finset.card_insert_of_notMem hnotin, hlen, hd.len_eq]

/-- The value under a handle is taken out. -/
theorem Describes.erase (hd : live.Describes get? len) (hlive : get? h = some v)
    (hget : ∀ k, get?' k = if k = h then none else get? k) (hlen : len' + 1 = len) :
    HandleMap.Describes (live.erase h) get?' len' where
  get?_eq k := by
    rw [hget]
    split
    · next heq => rw [heq, Finmap.lookup_erase]
    · next hne => rw [Finmap.lookup_erase_ne hne, hd.get?_eq]
  len_eq := by
    have hmem : h ∈ live.keys :=
      Finmap.mem_keys.2 (Finmap.mem_of_lookup_eq_some ((hd.get?_eq h).symm.trans hlive))
    have hcard := Finset.card_erase_add_one hmem
    rw [← Finmap.keys_erase, ← hd.len_eq, ← hlen] at hcard
    exact (Nat.add_right_cancel hcard).symm

end HandleMap

/-! ### Using a slab -/

/-- What is done with a slab. -/
inductive SlabUse (α : Type) where
  | push (v : α)
  | pop (i : Nat)
  | get (i : Nat)
  | len
  | isEmpty
  deriving DecidableEq, Repr

/-- What a slab answers. -/
inductive SlabAnswer (α : Type) where
  | handle (i : Nat)
  | value (v : Option α)
  | count (n : Nat)
  | flag (b : Bool)
  deriving DecidableEq, Repr

/-- What a map of handles answers to a use, and the map that it becomes. -/
inductive HandleMap.Answer (live : HandleMap Nat α) :
    SlabUse α → SlabAnswer α → HandleMap Nat α → Prop where
  /-- A value gets a handle that is not in use. -/
  | push {i : Nat} {v : α} (hpos : i ≠ 0) (hfree : i ∉ live) :
      Answer live (.push v) (.handle i) (live.insert i v)
  | pop {i : Nat} {v : α} (hlive : live.lookup i = some v) :
      Answer live (.pop i) (.value (some v)) (live.erase i)
  | popFree {i : Nat} (hfree : i ∉ live) : Answer live (.pop i) (.value none) live
  | get {i : Nat} {v : α} (hlive : live.lookup i = some v) :
      Answer live (.get i) (.value (some v)) live
  | getFree {i : Nat} (hfree : i ∉ live) : Answer live (.get i) (.value none) live
  | len : Answer live .len (.count live.keys.card) live
  | isEmpty {b : Bool} (hb : b = true ↔ live.keys.card = 0) : Answer live .isEmpty (.flag b) live

/-- What a map of handles answers to several uses, one after the other. -/
inductive HandleMap.Answers : HandleMap Nat α → List (SlabUse α) → List (SlabAnswer α) →
    HandleMap Nat α → Prop where
  | nil {live : HandleMap Nat α} : Answers live [] [] live
  | cons {live mid live' : HandleMap Nat α} {u : SlabUse α} {a : SlabAnswer α}
      {us : List (SlabUse α)} {as : List (SlabAnswer α)} (h : live.Answer u a mid)
      (hrest : Answers mid us as live') : Answers live (u :: us) (a :: as) live'

namespace Slab

variable {s : Slab α} {live : HandleMap Nat α} {i : Nat} {v : α}

/-- Does one thing with a slab. -/
def use (s : Slab α) : SlabUse α → SlabAnswer α × Slab α
  | .push v => (.handle (s.push v).1, (s.push v).2)
  | .pop i => (.value (s.pop i).1, (s.pop i).2)
  | .get i => (.value (s.get? i), s)
  | .len => (.count s.len, s)
  | .isEmpty => (.flag s.isEmpty, s)

/-- Does things with a slab, one after the other. -/
def run (s : Slab α) : List (SlabUse α) → List (SlabAnswer α) × Slab α
  | [] => ([], s)
  | u :: us => ((s.use u).1 :: ((s.use u).2.run us).1, ((s.use u).2.run us).2)

/-- A slab is sound, and a map has its values. -/
structure Serves (s : Slab α) (live : HandleMap Nat α) : Prop where
  sound : s.Sound
  describes : live.Describes s.get? s.len

/-- A slab that has just been made serves the empty map. -/
theorem serves_withCapacity (capacity : Nat) : (withCapacity capacity : Slab α).Serves ∅ :=
  ⟨sound_empty, HandleMap.describes_empty get?_empty⟩

namespace Serves

/-- What is found in a slab is what the map has. -/
theorem get?_eq (h : s.Serves live) (i : Nat) : s.get? i = live.lookup i := h.describes.get?_eq i

/-- A value that is stored gets a handle that is not in use. -/
theorem push (h : s.Serves live) (v : α) :
    live.Answer (.push v) (.handle (s.push v).1) (live.insert (s.push v).1 v) ∧
      (s.push v).2.Serves (live.insert (s.push v).1 v) := by
  have hfree := h.sound.get?_fst_push v
  refine ⟨.push (h.sound.fst_push_ne_zero v) (h.describes.not_mem_iff.2 hfree), h.sound.push v, ?_⟩
  exact h.describes.insert hfree (h.sound.get?_push v) (len_push s v)

/-- What is under a handle can be taken out once. -/
theorem pop (h : s.Serves live) (hlive : live.lookup i = some v) :
    (s.pop i).1 = some v ∧ (s.pop i).2.Serves (live.erase i) := by
  have hget : s.get? i = some v := (h.get?_eq i).trans hlive
  refine ⟨(h.sound.fst_pop i).trans hget, h.sound.pop i, ?_⟩
  exact h.describes.erase hget (h.sound.get?_pop i) (h.sound.len_pop hget)

/-- A number that is no handle leads nowhere. -/
theorem pop_of_not_mem (h : s.Serves live) (hfree : i ∉ live) : s.pop i = (none, s) :=
  pop_of_get?_eq_none (h.describes.not_mem_iff.1 hfree)

end Serves

/-- Each use is answered as by the map, which then has the values of the slab again. -/
theorem Serves.exists_answer (h : s.Serves live) (u : SlabUse α) :
    ∃ live', live.Answer u (s.use u).1 live' ∧ (s.use u).2.Serves live' := by
  match u with
  | .push v => exact ⟨_, h.push v⟩
  | .pop i =>
    show ∃ live', live.Answer (.pop i) (.value (s.pop i).1) live' ∧ (s.pop i).2.Serves live'
    rcases hlive : live.lookup i with - | v
    · have hfree : i ∉ live := Finmap.lookup_eq_none.1 hlive
      rw [h.pop_of_not_mem hfree]
      exact ⟨live, .popFree hfree, h⟩
    · obtain ⟨hfst, hserves⟩ := h.pop hlive
      rw [hfst]
      exact ⟨_, .pop hlive, hserves⟩
  | .get i =>
    refine ⟨live, ?_, h⟩
    show live.Answer (.get i) (.value (s.get? i)) live
    rw [h.get?_eq i]
    rcases hlive : live.lookup i with - | v
    · exact .getFree (Finmap.lookup_eq_none.1 hlive)
    · exact .get hlive
  | .len =>
    refine ⟨live, ?_, h⟩
    show live.Answer .len (.count s.len) live
    rw [h.describes.len_eq]
    exact .len
  | .isEmpty =>
    refine ⟨live, .isEmpty ?_, h⟩
    show (s.len == 0) = true ↔ _
    rw [beq_iff_eq, h.describes.len_eq]

/-- A slab answers as its map does, use after use. -/
theorem Serves.exists_answers (h : s.Serves live) (us : List (SlabUse α)) :
    ∃ live', live.Answers us (s.run us).1 live' ∧ (s.run us).2.Serves live' := by
  induction us generalizing s live with
  | nil => exact ⟨live, .nil, h⟩
  | cons u us ih =>
    obtain ⟨mid, hanswer, hmid⟩ := h.exists_answer u
    obtain ⟨live', hrest, hend⟩ := ih hmid
    exact ⟨live', .cons hanswer hrest, hend⟩

/-- **Slabs are maps of handles.** Whatever is done with a slab, it answers as a finite map from
handles to values does. In the end the two have the same values, the slab's length is the number of
handles, and to take out what is not there leaves the slab as it is. -/
theorem answers_run (capacity : Nat) (us : List (SlabUse α)) :
    let s := ((withCapacity capacity).run us).2
    ∃ live : HandleMap Nat α, (∅ : HandleMap Nat α).Answers us
      ((withCapacity capacity).run us).1 live ∧
      (∀ i, s.get? i = live.lookup i) ∧
      s.len = live.keys.card ∧
      (s.isEmpty = true ↔ live.keys.card = 0) ∧
      ∀ i ∉ live, s.pop i = (none, s) := by
  intro s
  obtain ⟨live, hanswers, hserves⟩ := (serves_withCapacity capacity).exists_answers us
  refine ⟨live, hanswers, hserves.get?_eq, hserves.describes.len_eq, ?_, ?_⟩
  · show (s.len == 0) = true ↔ _
    rw [beq_iff_eq, hserves.describes.len_eq]
  · exact fun i hi ↦ hserves.pop_of_not_mem hi

end Slab

end RingCall
