import Mathlib.Data.List.Basic
import RingCall.Proofs.Wire.Memory

/-!
# Decoding undoes writing

If a memory holds what was put down while a value was written, and the value's own storage, then the
value is read from wherever its reference is (`Ty.readsBack`). It does not matter where the pen
stood or what else the memory holds.

The proof follows the type. `ReadsBack` is the statement for one value and one way of writing it,
and `readsBack_writeOut` derives it for a list that is written out from its elements. Lists of
scalars and text are read from where they are, and a greeting is read part by part.
-/

namespace RingCall.Wire

variable {α : Type} {m : Memory} {write : α → Home → Pen → Written} {size : Nat}

/-- A memory holds all that was put down. -/
def HoldsPuts (m : Memory) (puts : List Put) : Prop := ∀ p ∈ puts, m.Holds p.address p.bytes

/-- A value is read back from its reference, if the memory holds what writing the value put down. -/
def ReadsBack (m : Memory) (read : Nat → Except ReadFault α)
    (write : α → Home → Pen → Written) (x : α) (home : Home) : Prop :=
  ∀ pen a, HoldsPuts m (write x home pen).puts → m.Holds a (write x home pen).ref → read a = .ok x

/-! ### Elements one behind the other -/

/-- Blocks of one size that lie one behind the other are each held in their place. -/
theorem Memory.holds_of_holds_flatMap {f : α → List UInt8} (hf : ∀ x, (f x).length = size) {a : Nat}
    {xs : List α} (h : m.Holds a (xs.flatMap f)) {k : Nat} {x : α} (hk : xs[k]? = some x) :
    m.Holds (a + k * size) (f x) := by
  induction xs generalizing a k with
  | nil => cases hk
  | cons y ys ih =>
    obtain ⟨hy, hys⟩ := Memory.holds_append_iff.1 (List.flatMap_cons ▸ h)
    rcases k with - | k
    · obtain rfl := Option.some.inj hk
      rwa [Nat.zero_mul, Nat.add_zero]
    · have hrest := ih hys hk
      rwa [hf, Nat.add_assoc, Nat.add_comm size, ← Nat.succ_mul] at hrest

theorem mapM_eq_ok {f : Nat → Except ReadFault α} {is : List Nat} {xs : List α}
    (h : is.map f = xs.map .ok) : is.mapM f = .ok xs := by
  induction is generalizing xs with
  | nil =>
    obtain rfl : xs = [] := List.map_eq_nil_iff.1 h.symm
    rfl
  | cons i is ih =>
    rcases xs with - | ⟨x, xs⟩
    · cases h
    · obtain ⟨hx, hxs⟩ := List.cons.inj h
      rw [List.mapM_cons, hx, ih hxs]
      rfl

theorem readEach_eq_ok {read : Nat → Except ReadFault α} {a : Nat} {xs : List α}
    (h : ∀ k x, xs[k]? = some x → read (a + k * size) = .ok x) :
    readEach size read a xs.length = .ok xs := by
  refine mapM_eq_ok (List.ext_getElem (by simp) ?_)
  intro k hk hk'
  have hlt : k < xs.length := by simpa using hk'
  simp [h k xs[k] (List.getElem?_eq_getElem hlt)]

/-- A list is read from a reference to its elements. -/
theorem readList_of_holds {read : Nat → Except ReadFault α} {a target : Nat} {xs : List α}
    (h : m.Holds a (viewBytes target xs.length)) (hlen : xs.length < 2 ^ 64)
    (helems : ∀ k x, xs[k]? = some x → read (target % 2 ^ 64 + k * size) = .ok x) :
    readList m size read a = .ok xs := by
  rw [readList, Memory.readView_of_holds h, Nat.mod_eq_of_lt hlen]
  exact readEach_eq_ok helems

/-- The elements of a list are read from their slots. -/
theorem read_of_writeEach {read : Nat → Except ReadFault α} {home : Home} {xs : List α}
    (href : ∀ x home pen, (write x home pen).ref.length = size) {i : Nat} {slots pen : Pen}
    (hback : ∀ k x, xs[k]? = some x → ReadsBack m read write x (home.child (i + k)))
    (hputs : HoldsPuts m (writeEach write home i xs slots pen).2) :
    ∀ k x, xs[k]? = some x → read (slots.pos + k * size) = .ok x := by
  induction xs generalizing i slots pen with
  | nil => exact nofun
  | cons x xs ih =>
    have helem : HoldsPuts m (write x (home.child i) pen).puts := fun p hp ↦
      hputs p (List.mem_append_left _ hp)
    have hslot : m.Holds slots.pos (write x (home.child i) pen).ref :=
      hputs ⟨slots.pos, _⟩ (List.mem_append_right _ List.mem_cons_self)
    have hothers : HoldsPuts m (writeEach write home (i + 1) xs
        ⟨slots.pos + (write x (home.child i) pen).ref.length⟩ (write x (home.child i) pen).pen).2 :=
      fun p hp ↦ hputs p (List.mem_append_right _ (List.mem_cons_of_mem _ hp))
    have hbacks : ∀ k y, xs[k]? = some y → ReadsBack m read write y (home.child (i + 1 + k)) := by
      intro k y hk
      rw [Nat.add_assoc, Nat.add_comm 1]
      exact hback (k + 1) y hk
    intro k y hk
    rcases k with - | k
    · obtain rfl := Option.some.inj hk
      rw [Nat.zero_mul, Nat.add_zero]
      exact hback 0 x rfl pen slots.pos helem hslot
    · have hread := ih hbacks hothers k y hk
      rw [href, Nat.add_assoc, Nat.add_comm size, ← Nat.succ_mul] at hread
      exact hread

/-- A list that was written out is read back, if its elements are. -/
theorem readsBack_writeOut {read : Nat → Except ReadFault α} {home : Home} {xs : List α}
    (hm : m.Addressable)
    (href : ∀ x home pen, (write x home pen).ref.length = size) (hsize : 0 < size)
    (hlen : xs.length < 2 ^ 64)
    (hback : ∀ k x, xs[k]? = some x → ReadsBack m read write x (home.child k)) :
    ReadsBack m (readList m size read) (writeOut size write) xs home := by
  intro pen a hputs hview
  refine readList_of_holds hview hlen ?_
  intro k x hk
  have hread : read (pen.pos + k * size) = .ok x := by
    refine read_of_writeEach (i := 0) href ?_ hputs k x hk
    intro k x hk
    rw [Nat.zero_add]
    exact hback k x hk
  -- the first slot has been written, so the slots start at an address
  have hpos : pen.pos < 2 ^ 64 := by
    rcases xs with - | ⟨y, ys⟩
    · cases hk
    · have hslot := hputs ⟨pen.pos, _⟩ (List.mem_append_right _ List.mem_cons_self)
      refine hm.lt_of_holds hslot ?_
      intro hnil
      have hzero : size = 0 := by
        rw [← href y (home.child 0) ⟨pen.pos + (y :: ys).length * size⟩]
        exact congrArg List.length hnil
      omega
  rwa [Nat.mod_eq_of_lt hpos]

theorem readsBack_writeText {s : String} {home : Home}
    (hm : m.Addressable) (hlen : (Text.utf8 s).length < 2 ^ 64)
    (hs : m.Holds (home []) (Text.utf8 s)) : ReadsBack m m.readText writeText s home :=
  fun _ _ _ href ↦ Memory.readText_of_holds hm href hlen hs

/-! ### Values -/

namespace Ty

/-- The length of each text and of each list in a value is a word, as it is of any that is in
memory. -/
def Countable : (t : Ty) → t.Value → Prop
  | prim _, _ => True
  | string, (s : String) => (Text.utf8 s).length < 2 ^ 64
  | list t, (xs : List t.Value) => xs.length < 2 ^ 64 ∧ ∀ x ∈ xs, t.Countable x
  | greeting, (g : Greeting) =>
    (Text.utf8 g.name).length < 2 ^ 64 ∧ g.tags.length < 2 ^ 64 ∧
      ∀ s ∈ g.tags, (Text.utf8 s).length < 2 ^ 64

/-- Whether a value is countable can be computed. -/
instance decidableCountable : (t : Ty) → (v : t.Value) → Decidable (t.Countable v)
  | prim _, _ => inferInstanceAs (Decidable True)
  | string, (s : String) => inferInstanceAs (Decidable ((Text.utf8 s).length < 2 ^ 64))
  | list t, (xs : List t.Value) =>
    have := t.decidableCountable
    inferInstanceAs (Decidable (xs.length < 2 ^ 64 ∧ ∀ x ∈ xs, t.Countable x))
  | greeting, (g : Greeting) =>
    inferInstanceAs (Decidable ((Text.utf8 g.name).length < 2 ^ 64 ∧ g.tags.length < 2 ^ 64 ∧
      ∀ s ∈ g.tags, (Text.utf8 s).length < 2 ^ 64))

theorem kind_list_eq_complex_iff {t : Ty} : (list t).kind = .complex ↔ t.kind ≠ .primitive := by
  cases h : t.kind <;> simp [kind, h, Kind.nest]

/-- A list is written out, unless its elements are scalars. -/
theorem write_list {t : Ty} (h : t.kind ≠ .primitive) :
    (list t).write = writeOut t.refSize t.write := by
  funext xs home pen
  exact if_pos (kind_list_eq_complex_iff.2 h)

theorem length_ref (t : Ty) (v : t.Value) (home : Home) (pen : Pen) :
    (t.write v home pen).ref.length = t.refSize := by
  cases t with
  | prim p => exact p.length_toBytes v
  | string => exact length_viewBytes _ _
  | list t =>
    by_cases ht : t.kind = .primitive
    · obtain ⟨p, rfl⟩ := kind_eq_primitive_iff.1 ht
      exact length_viewBytes _ _
    · rw [write_list ht]
      exact length_viewBytes _ _
  | greeting => simp [write, writeText, writeOut, refSize, viewSize]

theorem refSize_pos_of_kind {t : Ty} (h : t.kind ≠ .primitive) : 0 < t.refSize := by
  cases t with
  | prim p => exact absurd rfl h
  | string => exact Nat.succ_pos _
  | list t => exact Nat.succ_pos _
  | greeting => exact Nat.succ_pos _

/-- A list has the storage of its elements, unless they are scalars. -/
theorem storage_list {t : Ty} (ht : t.kind ≠ .primitive) (xs : List t.Value) :
    (list t).storage xs =
      xs.zipIdx.flatMap fun x ↦ (t.storage x.1).map fun y ↦ (x.2 :: y.1, y.2) := by
  cases t with
  | prim p => exact absurd rfl ht
  | string => rfl
  | list t => rfl
  | greeting => rfl

theorem mem_storage_list {t : Ty} (ht : t.kind ≠ .primitive) {xs : List t.Value} {k : Nat}
    {x : t.Value} (hk : xs[k]? = some x) {y : List Nat × List UInt8} (hy : y ∈ t.storage x) :
    (k :: y.1, y.2) ∈ (list t).storage xs := by
  rw [storage_list ht]
  exact List.mem_flatMap.2 ⟨(x, k), List.mem_zipIdx_iff_getElem?.2 hk, List.mem_map_of_mem hy⟩

/-- A list of scalars is read from its own storage. -/
theorem readsBack_list_prim (hm : m.Addressable) {p : Prim}
    {xs : List p.Value} {home : Home} (hlen : xs.length < 2 ^ 64)
    (hs : m.Holds (home []) (xs.flatMap p.toBytes)) :
    ReadsBack m ((list (prim p)).readAt m) (list (prim p)).write xs home := by
  intro pen a _ href
  refine readList_of_holds href hlen ?_
  intro k x hk
  have hx : m.Holds (home [] % 2 ^ 64 + k * p.width) (p.toBytes x) :=
    Memory.holds_of_holds_flatMap p.length_toBytes (hm.holds_mod hs) hk
  exact Memory.readPrim_of_holds hx

/-- A greeting is read back part by part. -/
theorem readsBack_greeting (hm : m.Addressable) {g : Greeting} {home : Home}
    (hcount : greeting.Countable g)
    (hstored : ∀ x ∈ greeting.storage g, m.Holds (home x.1) x.2) :
    ReadsBack m (greeting.readAt m) greeting.write g home := by
  obtain ⟨hname, htags, htag⟩ := hcount
  have hnameBack : ReadsBack m m.readText writeText g.name (home.child 0) :=
    readsBack_writeText hm hname (hstored ([0], _) List.mem_cons_self)
  have htagsBack : ReadsBack m (readList m viewSize m.readText) (writeOut viewSize writeText) g.tags
      (home.child 1) := by
    refine readsBack_writeOut hm (fun _ _ _ ↦ length_viewBytes _ _) (Nat.succ_pos _) htags ?_
    intro k s hk
    refine readsBack_writeText hm (htag s (List.mem_of_getElem? hk)) (hstored ([1, k], _) ?_)
    exact List.mem_cons_of_mem _ (List.mem_map.2 ⟨(s, k), List.mem_zipIdx_iff_getElem?.2 hk, rfl⟩)
  intro pen a hputs href
  obtain ⟨hhead, htagsRef⟩ := Memory.holds_append_iff.1 href
  obtain ⟨hids, hnameRef⟩ := Memory.holds_append_iff.1 hhead
  -- the padding is not read
  obtain ⟨hid, -⟩ := Memory.holds_append_iff.1 hids
  simp only [List.length_append, length_toBytes, length_viewBytes, writeText] at htagsRef hnameRef
  have hname' : m.readText (a + 8) = .ok g.name :=
    hnameBack pen _ (fun p hp ↦ hputs p (List.mem_append_left _ hp)) hnameRef
  have htags' : readList m viewSize m.readText (a + 8 + viewSize) = .ok g.tags :=
    htagsBack _ _ (fun p hp ↦ hputs p (List.mem_append_right _ hp))
      (by rwa [Nat.add_assoc])
  have hid' : m.read a 4 = .ok (toBytes 4 g.id.toNat) :=
    Memory.read_of_holds hid (length_toBytes _ _)
  have hvalue : UInt32.ofNat (ofBytes (toBytes 4 g.id.toNat)) = g.id := by
    rw [ofBytes_toBytes_of_lt (UInt32.toNat_lt g.id), UInt32.ofNat_toNat]
  rw [readAt, hid']
  simp only [bind, Except.bind, hname', htags', hvalue]
  rfl

/-- **A value is read back from its reference**, if the memory holds its own storage and what was
written of it. -/
theorem readsBack (hm : m.Addressable) (t : Ty) {v : t.Value} {home : Home}
    (hcount : t.Countable v) (hstored : ∀ x ∈ t.storage v, m.Holds (home x.1) x.2) :
    ReadsBack m (t.readAt m) t.write v home := by
  induction t generalizing home with
  | prim p => exact fun pen a _ href ↦ Memory.readPrim_of_holds href
  | string => exact readsBack_writeText hm hcount (hstored ([], _) List.mem_cons_self)
  | greeting => exact readsBack_greeting hm hcount hstored
  | list t ih =>
    obtain ⟨hlen, hcounts⟩ := hcount
    by_cases ht : t.kind = .primitive
    · obtain ⟨p, rfl⟩ := kind_eq_primitive_iff.1 ht
      exact readsBack_list_prim hm hlen (hstored ([], _) List.mem_cons_self)
    · rw [write_list ht]
      refine readsBack_writeOut hm t.length_ref (refSize_pos_of_kind ht) hlen ?_
      intro k x hk
      exact ih (hcounts x (List.mem_of_getElem? hk)) fun y hy ↦
        hstored _ (mem_storage_list ht hk hy)

end Ty

end RingCall.Wire
