import Mathlib.Order.Bounds.Basic
import RingCall.Proofs.Slab.HandleMap
import RingCall.Proofs.Slab.Reuse

/-!
# Which handle is next

What was done with a slab and the handles that its values got make up a history: a handle is handed
out to a value, and it is given back when the value of a handle that is in use is taken out. This
history, and nothing else, decides which handle comes next: the one that was given back last and not
handed out since or, if there is none, the least that was never handed out (`Slab.reuse_run`). So a
slab grows only when none of its slots is free, and its largest handle is the number of values that
it ever held at once.

A history determines which handles are in use (`SlabHistory.inUse`) and a stack of free ones
(`SlabHistory.freeStack`). The links in the vacant slots of a slab lead through just this stack
(`Slab.Follows.chain`). To ask for a handle that is not in use leaves no trace in the history, and
must not disturb the links either.
-/

namespace RingCall

variable {α : Type}

/-- What happens to a handle. -/
inductive SlabEvent where
  | issued (i : Nat)
  | freed (i : Nat)
  deriving DecidableEq, Repr

/-- What has happened to the handles of a slab, the latest event first. -/
abbrev SlabHistory := List SlabEvent

namespace SlabHistory

variable {h newer older : SlabHistory} {i j : Nat}

/-- Whether a handle is in use: it was handed out, and not given back since. -/
def inUse (i : Nat) : SlabHistory → Bool
  | [] => false
  | .issued j :: h => i == j || inUse i h
  | .freed j :: h => i != j && inUse i h

/-- The history after one more use. A value gets the handle that is answered. A handle that is in
use is given back by taking its value out, whatever is answered. Nothing else concerns the
handles. -/
def extend (h : SlabHistory) : SlabUse α → SlabAnswer α → SlabHistory
  | .push _, .handle i => .issued i :: h
  | .pop i, _ => if h.inUse i then .freed i :: h else h
  | _, _ => h

/-- The history after more uses, one after the other. -/
def extendAll (h : SlabHistory) : List (SlabUse α) → List (SlabAnswer α) → SlabHistory
  | u :: us, a :: as => extendAll (h.extend u a) us as
  | _, _ => h

/-- The largest handle that was handed out, or 0 if there is none. -/
def largest : SlabHistory → Nat
  | [] => 0
  | .issued i :: h => max i (largest h)
  | .freed _ :: h => largest h

/-- The number of handles that are in use. -/
def live : SlabHistory → Nat
  | [] => 0
  | .issued _ :: h => live h + 1
  | .freed _ :: h => live h - 1

/-- Whether a handle was given back last, among those that were not handed out since. -/
def IsFreedLast (h : SlabHistory) (i : Nat) : Prop :=
  ∃ newer older, h = newer ++ .freed i :: older ∧ .issued i ∉ newer ∧
    ∀ later j earlier, newer = later ++ .freed j :: earlier → .issued j ∈ later

/-- Whether each handle was handed out in turn: the one given back last or, if none is free, the
least that was never handed out. -/
def IsFrugal (h : SlabHistory) : Prop :=
  ∀ newer i older, h = newer ++ .issued i :: older →
    IsFreedLast older i ∨ (∀ j, ¬IsFreedLast older j) ∧ i = largest older + 1

/-- The numbers of handles that were in use at some moment. -/
def levels (h : SlabHistory) : Set Nat := {n | ∃ older, older <:+ h ∧ live older = n}

/-! ### The stack of free handles -/

/-- The handles that were given back and not handed out since, the one given back last first. -/
def freeStack : SlabHistory → List Nat
  | [] => []
  | .issued i :: h => (freeStack h).filter (· ≠ i)
  | .freed i :: h => i :: freeStack h

/-- Whether all handles that were given back and not handed out since are in a list. -/
def FreesAmong (h : SlabHistory) (handles : List Nat) : Prop :=
  ∀ later i earlier, h = later ++ .freed i :: earlier → .issued i ∈ later ∨ i ∈ handles

/-- No index is free at first. -/
theorem FreesAmong.nil : FreesAmong [] [] := by
  intro later i earlier heq
  exact absurd heq (by simp)

/-- An index that is issued is free no more. -/
theorem FreesAmong.issued {handles : List Nat} (hf : FreesAmong h handles) (k : Nat) :
    FreesAmong (.issued k :: h) (handles.filter (· ≠ k)) := by
  intro later i earlier heq
  rcases later with - | ⟨e, later⟩
  · cases heq
  · obtain ⟨rfl, rfl⟩ := List.cons.inj heq
    by_cases hik : i = k
    · exact .inl (hik ▸ List.mem_cons_self)
    · exact (hf later i earlier rfl).imp (List.mem_cons_of_mem _)
        fun hmem ↦ List.mem_filter.2 ⟨hmem, by simpa using hik⟩

/-- An index that is freed is free, and is the last one. -/
theorem FreesAmong.freed {handles : List Nat} (hf : FreesAmong h handles) (k : Nat) :
    FreesAmong (.freed k :: h) (k :: handles) := by
  intro later i earlier heq
  rcases later with - | ⟨e, later⟩
  · obtain ⟨hik, -⟩ := List.cons.inj heq
    exact .inr (SlabEvent.freed.inj hik ▸ List.mem_cons_self)
  · obtain ⟨rfl, rfl⟩ := List.cons.inj heq
    exact (hf later i earlier rfl).imp (List.mem_cons_of_mem _) (List.mem_cons_of_mem _)

/-- What was given back after a handle in the stack lies above it, or was handed out again. -/
theorem exists_of_freeStack_eq {above below : List Nat}
    (hstack : freeStack h = above ++ i :: below) :
    ∃ newer older, h = newer ++ .freed i :: older ∧ .issued i ∉ newer ∧ FreesAmong newer above := by
  induction h generalizing above below with
  | nil => simp [freeStack] at hstack
  | cons e h ih =>
    match e with
    | .issued k =>
      -- the stack was the same before, but for some places of `k`
      obtain ⟨above', rest, hsplit, rfl, hrest⟩ := List.filter_eq_append_iff.1 hstack
      obtain ⟨skipped, below', rfl, hskipped, hik, -⟩ := List.filter_eq_cons_iff.1 hrest
      rw [← List.append_assoc] at hsplit
      obtain ⟨newer, older, rfl, hnot, hamong⟩ := ih hsplit
      have hnext := hamong.issued k
      rw [List.filter_append, List.filter_eq_nil_iff.2 hskipped, List.append_nil] at hnext
      have hne : i ≠ k := by simpa using hik
      exact ⟨.issued k :: newer, older, rfl, by simp [hne, hnot], hnext⟩
    | .freed k =>
      rcases above with - | ⟨a, above⟩
      · obtain ⟨rfl, -⟩ := List.cons.inj hstack
        exact ⟨[], h, rfl, List.not_mem_nil, .nil⟩
      · obtain ⟨rfl, hrest⟩ := List.cons.inj hstack
        obtain ⟨newer, older, rfl, hnot, hamong⟩ := ih hrest
        exact ⟨.freed k :: newer, older, rfl, by simp [hnot], hamong.freed k⟩

/-- The handle on top of the stack was given back last. -/
theorem isFreedLast_of_freeStack_eq {below : List Nat} (hstack : freeStack h = i :: below) :
    IsFreedLast h i := by
  have htop : freeStack h = [] ++ i :: below := hstack
  obtain ⟨newer, older, heq, hnot, hamong⟩ := exists_of_freeStack_eq htop
  refine ⟨newer, older, heq, hnot, fun later j earlier hnewer ↦ ?_⟩
  exact (hamong later j earlier hnewer).resolve_right List.not_mem_nil

/-- A handle that was given back is in the stack until it is handed out. -/
theorem mem_freeStack (hnot : .issued i ∉ newer) : i ∈ freeStack (newer ++ .freed i :: older) := by
  induction newer with
  | nil => exact List.mem_cons_self
  | cons e newer ih =>
    obtain ⟨hne, hrest⟩ := List.ne_and_not_mem_of_not_mem_cons hnot
    have hmem := ih hrest
    match e with
    | .issued k =>
      have hik : i ≠ k := fun heq ↦ hne (heq ▸ rfl)
      exact List.mem_filter.2 ⟨hmem, by simpa using hik⟩
    | .freed k => exact List.mem_cons_of_mem _ hmem

/-- No handle is free if the stack is empty. -/
theorem not_isFreedLast_of_freeStack_eq_nil (hstack : freeStack h = []) (i : Nat) :
    ¬IsFreedLast h i := by
  rintro ⟨newer, older, rfl, hnot, -⟩
  exact absurd (mem_freeStack hnot) (hstack ▸ List.not_mem_nil)

/-! ### Going on -/

/-- A history is frugal if it issues the index that was freed last, or the next one if none is free.
-/
theorem IsFrugal.issued (hf : IsFrugal h)
    (hi : IsFreedLast h i ∨ (∀ j, ¬IsFreedLast h j) ∧ i = largest h + 1) :
    IsFrugal (.issued i :: h) := by
  intro newer j older heq
  rcases newer with - | ⟨e, newer⟩
  · obtain ⟨hij, rfl⟩ := List.cons.inj heq
    exact SlabEvent.issued.inj hij ▸ hi
  · exact hf newer j older (List.cons.inj heq).2

/-- Freeing an index is always frugal. -/
theorem IsFrugal.freed (hf : IsFrugal h) (i : Nat) : IsFrugal (.freed i :: h) := by
  intro newer j older heq
  rcases newer with - | ⟨e, newer⟩
  · cases heq
  · exact hf newer j older (List.cons.inj heq).2

/-- The levels of a history are those before its last event, and the present one. -/
theorem levels_cons (e : SlabEvent) (h : SlabHistory) :
    levels (e :: h) = insert (live (e :: h)) (levels h) := by
  ext n
  simp only [levels, List.suffix_cons_iff, Set.mem_ofPred_eq, Set.mem_insert_iff, or_and_right,
    exists_or, exists_eq_left, eq_comm]

end SlabHistory

namespace Slab

open SlabHistory

variable {s : Slab α} {h : SlabHistory} {slots : Array (Slot α)} {i : Nat} {v : α}

/-- There is one list of free slots. -/
theorem Chain.eq {free free' : List Nat} (hc : Chain slots i free) (hc' : Chain slots i free') :
    free' = free := by
  induction hc generalizing free' with
  | nil =>
    rcases hc' with - | ⟨hi, -, -⟩
    · rfl
    · exact absurd rfl hi
  | cons hi hslot _ ih =>
    rcases hc' with - | ⟨-, hslot', hrest⟩
    · exact absurd rfl hi
    · obtain rfl := Slot.vacant.inj (Option.some.inj (hslot.symm.trans hslot'))
      rw [ih hrest]

/-- Slot 0 is not in use. -/
theorem Sound.len_lt_size (h : s.Sound) : s.len < s.slots.size := by
  obtain ⟨n, hzero⟩ := h.zero
  obtain ⟨hlt, hget⟩ := Array.getElem?_eq_some_iff.1 hzero
  rw [h.len_eq]
  refine Nat.lt_of_le_of_ne Array.countP_le_size fun heq ↦ ?_
  have hocc := Array.countP_eq_size.1 heq _ (Array.getElem_mem hlt)
  rw [hget] at hocc
  cases hocc

/-- Every slot but slot 0 holds a value when no slot is free. -/
theorem Sound.isSome_get?_of_next_eq_zero (h : s.Sound) (hnext : s.next = 0) (hi : i ≠ 0)
    (hlt : i < s.slots.size) : (s.get? i).isSome = true := by
  have hslot := Array.getElem?_eq_getElem hlt
  rw [get?]
  rcases hs : s.slots[i] with n | v <;> rw [hs] at hslot
  · exact absurd hslot (h.ne_vacant_of_next_eq_zero hnext hi n)
  · rw [hslot]
    rfl

/-- **What ties a slab to its history.** -/
structure Follows (s : Slab α) (h : SlabHistory) : Prop where
  sound : s.Sound
  /-- The links lead through the stack of free handles. -/
  chain : Chain s.slots s.next (freeStack h)
  size_eq : s.slots.size = largest h + 1
  len_eq : s.len = live h
  /-- The handles of the values are those in use. -/
  isSome_eq : ∀ i, (s.get? i).isSome = inUse i h
  frugal : IsFrugal h
  isGreatest : IsGreatest (levels h) (largest h)

namespace Follows

/-- An empty slab follows the empty history. -/
theorem empty : (Slab.empty : Slab α).Follows [] where
  sound := sound_empty
  chain := .nil
  size_eq := rfl
  len_eq := rfl
  isSome_eq i := by
    rw [get?_empty]
    rfl
  frugal newer i older heq := by cases newer <;> cases heq
  isGreatest := by simp [levels, largest, live, List.suffix_nil]

/-- The handle of a value is in use once it is stored. -/
theorem isSome_push (hs : s.Follows h) (v : α) (i : Nat) :
    ((s.push v).2.get? i).isSome = inUse i (.issued (s.push v).1 :: h) := by
  rw [hs.sound.get?_push, inUse, ← hs.isSome_eq]
  by_cases hi : i = (s.push v).1 <;> simp [hi]

/-- A handle is not in use once its value is taken out. -/
theorem isSome_pop (hs : s.Follows h) (i j : Nat) :
    ((s.pop i).2.get? j).isSome = inUse j (.freed i :: h) := by
  rw [hs.sound.get?_pop, inUse, ← hs.isSome_eq]
  by_cases hj : j = i <;> simp [hj]

/-- A new slot is used when no handle is free. -/
theorem grow (hs : s.Follows h) (hnext : s.next = 0) (v : α) :
    (s.push v).1 = largest h + 1 ∧ (s.push v).2.Follows (.issued (s.push v).1 :: h) := by
  have hstack : freeStack h = [] := Chain.eq .nil (hnext ▸ hs.chain)
  have hsound := hs.sound.push v
  have hsize := hs.sound.size_eq_of_next_eq_zero hnext
  have hused := hs.isSome_push v
  rw [push_of_next_eq_zero hnext] at hsound hused ⊢
  refine ⟨hs.size_eq, hsound, ?_, ?_, ?_, hused, ?_, ?_⟩
  · show Chain _ 0 ((freeStack h).filter _)
    rw [hstack]
    exact .nil
  · show (s.slots.push _).size = max s.slots.size (largest h) + 1
    rw [Array.size_push, hs.size_eq, Nat.max_eq_left (Nat.le_succ _)]
  · exact congrArg (· + 1) hs.len_eq
  · exact hs.frugal.issued (.inr ⟨not_isFreedLast_of_freeStack_eq_nil hstack, hs.size_eq⟩)
  · have hlive : live (.issued s.slots.size :: h) = s.slots.size := by
      rw [live, ← hs.len_eq, hsize]
    have hlargest : largest (.issued s.slots.size :: h) = s.slots.size := by
      rw [largest, hs.size_eq, Nat.max_eq_left (Nat.le_succ _)]
    rw [levels_cons, hlive, hlargest]
    refine ⟨Set.mem_insert _ _, ?_⟩
    rintro n (rfl | hn)
    · exact Nat.le_refl _
    · exact Nat.le_trans (hs.isGreatest.2 hn) (hs.size_eq ▸ Nat.le_succ _)

/-- A free handle is handed out again, the one given back last first. -/
theorem reuse (hs : s.Follows h) (hnext : s.next ≠ 0) (v : α) :
    IsFreedLast h (s.push v).1 ∧ (s.push v).2.Follows (.issued (s.push v).1 :: h) := by
  obtain ⟨n, rest, hslot, hrest, hnodup, -⟩ := hs.sound.exists_vacant_next hnext
  -- the links of the slab lead through the stack of the history
  have hstack : freeStack h = s.next :: rest := Chain.eq (.cons hnext hslot hrest) hs.chain
  have hnot : s.next ∉ rest := (List.nodup_cons.1 hnodup).1
  have hlt : s.next < s.slots.size := (Array.getElem?_eq_some_iff.1 hslot).1
  have hlast : IsFreedLast h s.next := isFreedLast_of_freeStack_eq hstack
  have hlargest : largest (.issued s.next :: h) = largest h :=
    Nat.max_eq_right (Nat.le_of_lt_succ (Nat.lt_of_lt_of_eq hlt hs.size_eq))
  have hsound := hs.sound.push v
  have hused := hs.isSome_push v
  rw [push_of_vacant hnext hslot] at hsound hused ⊢
  have hroom : s.len + 1 < s.slots.size := by simpa using hsound.len_lt_size
  refine ⟨hlast, hsound, ?_, ?_, ?_, hused, hs.frugal.issued (.inl hlast), ?_⟩
  · have hfilter : freeStack (.issued s.next :: h) = rest := by
      rw [freeStack, hstack, List.filter_cons_of_neg (by simp)]
      exact List.filter_eq_self.2 fun j hj ↦ by simpa using fun heq : j = s.next ↦ hnot (heq ▸ hj)
    rw [hfilter]
    refine hrest.frame fun j hj ↦ ?_
    have hne : s.next ≠ j := fun heq ↦ hnot (heq ▸ hj)
    rw [Array.getElem?_setIfInBounds, if_neg hne]
  · rw [hlargest, ← hs.size_eq, Array.size_setIfInBounds]
  · exact congrArg (· + 1) hs.len_eq
  · rw [levels_cons, hlargest]
    refine ⟨Set.mem_insert_of_mem _ hs.isGreatest.1, ?_⟩
    rintro n (rfl | hn)
    · rw [live, ← hs.len_eq]
      exact Nat.le_of_lt_succ (Nat.lt_of_lt_of_eq hroom hs.size_eq)
    · exact hs.isGreatest.2 hn

/-- Storing a value issues an index. -/
theorem push (hs : s.Follows h) (v : α) : (s.push v).2.Follows (.issued (s.push v).1 :: h) := by
  by_cases hnext : s.next = 0
  · exact (hs.grow hnext v).2
  · exact (hs.reuse hnext v).2

/-- A handle that is given back is the next to be handed out. -/
theorem pop (hs : s.Follows h) (hget : s.get? i = some v) :
    (s.pop i).2.Follows (.freed i :: h) := by
  obtain ⟨hi, hslot, hpop⟩ := hs.sound.pop_of_get? hget
  have hlt : i < s.slots.size := (Array.getElem?_eq_some_iff.1 hslot).1
  have hlen := hs.sound.len_pop hget
  have hsound := hs.sound.pop i
  refine ⟨hsound, ?_, ?_, ?_, hs.isSome_pop i, hs.frugal.freed i, ?_⟩
  · rw [hpop]
    refine .cons hi ?_ (hs.chain.frame fun j hj ↦ ?_)
    · rw [Array.getElem?_setIfInBounds, if_pos rfl, if_pos hlt]
    · obtain ⟨-, n, hvacant⟩ := hs.chain.vacant j hj
      rw [Array.getElem?_setIfInBounds, if_neg]
      rintro rfl
      rw [hslot] at hvacant
      cases hvacant
  · rw [size_pop]
    exact hs.size_eq
  · rw [live, ← hs.len_eq]
    omega
  · rw [levels_cons]
    refine ⟨Set.mem_insert_of_mem _ hs.isGreatest.1, ?_⟩
    have hle := hsound.len_lt_size
    rw [size_pop, hs.size_eq] at hle
    rintro n (rfl | hn)
    · show live h - 1 ≤ largest h
      rw [← hs.len_eq]
      omega
    · exact hs.isGreatest.2 hn

/-- A slab goes on to follow its history. -/
theorem use (hs : s.Follows h) (u : SlabUse α) :
    (s.use u).2.Follows (h.extend u (s.use u).1) := by
  match u with
  | .push v => exact hs.push v
  | .pop i =>
    show (s.pop i).2.Follows (if h.inUse i then .freed i :: h else h)
    have hused := hs.isSome_eq i
    rcases hget : s.get? i with - | v <;> rw [hget] at hused
    · rw [← hused, pop_of_get?_eq_none hget]
      exact hs
    · rw [← hused]
      exact hs.pop hget
  | .get _ | .len | .isEmpty => exact hs

/-- A slab follows the history of its uses. -/
theorem run (hs : s.Follows h) (us : List (SlabUse α)) :
    (s.run us).2.Follows (h.extendAll us (s.run us).1) := by
  induction us generalizing s h with
  | nil => exact hs
  | cons u us ih => exact ih (hs.use u)

end Follows

/-- **Slots are used again, the one freed last first.** Whatever is done with a slab, each value
gets the handle that was given back last and not handed out since or, if all handles are in use, the
one above the largest that was ever handed out. The handles in use are those under which the slab
has values. So a slab grows only when all its slots but slot 0 are in use, and the largest handle is
the greatest number of values that the slab ever held at once. -/
theorem reuse_run (capacity : Nat) (us : List (SlabUse α)) :
    let s := ((withCapacity capacity).run us).2
    let h := extendAll [] us ((withCapacity capacity).run us).1
    (∀ newer i older, h = newer ++ .issued i :: older →
      IsFreedLast older i ∨ (∀ j, ¬IsFreedLast older j) ∧ i = largest older + 1) ∧
    (∀ i, (s.get? i).isSome = h.inUse i) ∧
    (∀ v, (s.push v).2.slots.size ≠ s.slots.size →
      ∀ i, i ≠ 0 → i < s.slots.size → (s.get? i).isSome = true) ∧
    s.slots.size = largest h + 1 ∧
    s.len = live h ∧
    IsGreatest {n | ∃ older, older <:+ h ∧ live older = n} (largest h) := by
  intro s h
  have hs : s.Follows h := Follows.empty.run us
  refine ⟨hs.frugal, hs.isSome_eq, fun v hgrows i hi hlt ↦ ?_, hs.size_eq, hs.len_eq, hs.isGreatest⟩
  by_cases hnext : s.next = 0
  · exact hs.sound.isSome_get?_of_next_eq_zero hnext hi hlt
  · obtain ⟨n, rest, hslot, -⟩ := hs.sound.exists_vacant_next hnext
    rw [push_of_vacant hnext hslot, Array.size_setIfInBounds] at hgrows
    exact absurd rfl hgrows

/-- Handle 3 is given back after handle 1, and handle 9 was never handed out. The next value gets
handle 3, the one after it handle 1, and the last one a handle of its own. -/
theorem reuse_run_lastFreedFirst :
    let us : List (SlabUse Char) := [.push 'a', .push 'b', .push 'c', .pop 1, .pop 3, .pop 9,
      .push 'd', .push 'e', .push 'f']
    let s := ((withCapacity 0).run us).2
    let freed : SlabHistory := [.freed 3, .freed 1, .issued 3, .issued 2, .issued 1]
    extendAll [] us ((withCapacity 0).run us).1 = [.issued 4, .issued 1] ++ .issued 3 :: freed ∧
    (IsFreedLast freed 3 ∨ (∀ j, ¬IsFreedLast freed j) ∧ 3 = largest freed + 1) ∧
    (s.get? 3).isSome = true ∧ s.slots.size = 4 + 1 ∧ s.len = 4 := by
  intro us s freed
  obtain ⟨hnext, hused, -, hsize, hlen, -⟩ := reuse_run 0 us
  have hhistory : extendAll [] us ((withCapacity 0).run us).1 =
      [.issued 4, .issued 1] ++ .issued 3 :: freed := by decide
  exact ⟨hhistory, hnext _ _ _ hhistory, hused 3, hsize, hlen⟩

end Slab

end RingCall
