import Mathlib.Data.List.Nodup
import RingCall.Proofs.Lists
import RingCall.Proofs.Wire.Buffer

/-!
# Decoding undoes encoding

A value that is encoded flat is read back from the address of its reference, wherever its buffer and
its own storage lie (`Ty.readAt_refAddress`). Nothing is asked of the buffer's alignment, and
nothing of the rest of memory.

A stored value is in such a memory. Its blocks and its buffer lie one behind the other, so that the
memory of its regions holds each of them (`Memory.holds_ofRegions`), and the parts that own a block
are told apart by their paths (`Ty.nodup_storage`), so that each block is found.
-/

namespace RingCall.Wire

/-! ### Regions -/

namespace Region

variable {r s : Region} {a i : Nat}

/-- Two regions share no address. -/
def Apart (r s : Region) : Prop := r.stop ≤ s.base ∨ s.stop ≤ r.base

theorem byte?_add {b : UInt8} (h : r.bytes[i]? = some b) : r.byte? (r.base + i) = some b := by
  rw [byte?, if_pos (Nat.le_add_right _ _), Nat.add_sub_cancel_left, h]

/-- A region has only the addresses from its base to its end. -/
theorem mem_of_byte? (h : (r.byte? a).isSome = true) : r.base ≤ a ∧ a < r.stop := by
  rw [byte?] at h
  split at h
  next hbase =>
    have hlt : a - r.base < r.bytes.size := by simpa using h
    rw [stop]
    omega
  next => cases h

theorem byte?_eq_none_of_apart (h : r.Apart s) (hi : i < s.bytes.size) :
    r.byte? (s.base + i) = none := by
  rw [← Option.not_isSome_iff_eq_none]
  intro hsome
  obtain ⟨hbase, hstop⟩ := mem_of_byte? hsome
  have hs : s.stop = s.base + s.bytes.size := rfl
  rcases h with h | h <;> omega

end Region

/-- The memory of regions holds those that are apart from each other and in front of all others. -/
theorem Memory.holds_ofRegions {rs : List Region} {r : Region} (hapart : rs.Pairwise Region.Apart)
    (hr : r ∈ rs) (others : List Region) :
    (Memory.ofRegions (rs ++ others)).Holds r.base r.bytes.toList := by
  intro i b hi
  rw [Array.getElem?_toList] at hi
  have hlt : i < r.bytes.size := (Array.getElem?_eq_some_iff.1 hi).1
  induction rs with
  | nil => cases hr
  | cons s rs ih =>
    obtain ⟨hs, hrest⟩ := List.pairwise_cons.1 hapart
    rw [Memory.ofRegions, List.cons_append, List.findSome?_cons]
    -- a region that is not the first one is apart from it
    rcases List.mem_cons.1 hr with rfl | hr
    · rw [Region.byte?_add hi]
    · rw [Region.byte?_eq_none_of_apart (hs r hr) hlt]
      exact ih hrest hr

/-- A heap has no address behind its last region. -/
theorem Heap.addressable_memory {h : Heap} (htop : h.top ≤ 2 ^ 64) : h.memory.Addressable := by
  intro a ha
  obtain ⟨r, hr, hbyte⟩ := List.findSome?_isSome_iff.1 ha
  have hstop : r.stop ≤ h.top := (List.le_foldl_max Region.stop h.regions floor).2 r hr
  have hlt := (Region.mem_of_byte? hbyte).2
  omega

/-! ### Own storage -/

namespace Ty

theorem pairwise_ne_zipIdx {α : Type} (xs : List α) : xs.zipIdx.Pairwise fun x y ↦ x.2 ≠ y.2 := by
  rw [← List.pairwise_map (R := (· ≠ ·)), List.zipIdx_map_snd]
  exact List.nodup_range'

theorem nodup_storage_list {t : Ty} (ht : t.kind ≠ .primitive) {xs : List t.Value}
    (ih : ∀ x, ((t.storage x).map (·.1)).Nodup) : (((list t).storage xs).map (·.1)).Nodup := by
  have hpaths : ((list t).storage xs).map (·.1) =
      xs.zipIdx.flatMap fun x ↦ ((t.storage x.1).map (·.1)).map (x.2 :: ·) := by
    rw [storage_list ht, List.map_flatMap]
    simp only [List.map_map, Function.comp_def]
  rw [hpaths, List.nodup_flatMap]
  refine ⟨fun x _ ↦ (ih x.1).map List.cons_injective, ?_⟩
  refine (pairwise_ne_zipIdx xs).imp ?_
  intro x y hne path hx hy
  obtain ⟨p, -, rfl⟩ := List.mem_map.1 hx
  obtain ⟨q, -, hq⟩ := List.mem_map.1 hy
  exact hne (List.cons.inj hq).1.symm

theorem nodup_storage_greeting (g : Greeting) : ((greeting.storage g).map (·.1)).Nodup := by
  have hpaths : (greeting.storage g).map (·.1) = [0] :: g.tags.zipIdx.map fun x ↦ [1, x.2] := by
    simp [storage]
  rw [hpaths, List.nodup_cons]
  refine ⟨by simp, List.pairwise_map.2 ?_⟩
  refine (pairwise_ne_zipIdx g.tags).imp fun hne heq ↦ hne ?_
  simpa using heq

/-- Different blocks belong to parts with different paths. -/
theorem nodup_storage (t : Ty) (v : t.Value) : ((t.storage v).map (·.1)).Nodup := by
  induction t with
  | prim p => exact List.nodup_nil
  | string => exact List.nodup_singleton _
  | greeting => exact nodup_storage_greeting v
  | list t ih =>
    by_cases ht : t.kind = .primitive
    · obtain ⟨p, rfl⟩ := kind_eq_primitive_iff.1 ht
      exact List.nodup_singleton _
    · exact nodup_storage_list ht ih

variable {blocks : List (List Nat × List UInt8)} {path : List Nat} {block : List UInt8}

/-- A block is found under its path. -/
theorem exists_lookup_layOut (hnodup : (blocks.map (·.1)).Nodup)
    (h : (path, block) ∈ blocks) (a : Nat) :
    ∃ b, (place.layOut a blocks).lookup path = some ⟨b, block.toArray⟩ := by
  induction blocks generalizing a with
  | nil => cases h
  | cons x blocks ih =>
    obtain ⟨hx, hrest⟩ := List.nodup_cons.1 hnodup
    rcases List.mem_cons.1 h with rfl | h
    · exact ⟨a, List.lookup_cons_self⟩
    -- the path is not that of the first block, which is in the list only once
    · have hne : (path == x.1) = false := by
        rw [beq_eq_false_iff_ne]
        rintro rfl
        exact hx (List.mem_map.2 ⟨_, h, rfl⟩)
      obtain ⟨b, hb⟩ := ih hrest h (a + x.2.length)
      refine ⟨b, ?_⟩
      rw [place.layOut, List.lookup_cons, hne]
      exact hb

/-- Blocks lie one behind the other. -/
theorem pairwise_layOut (blocks : List (List Nat × List UInt8)) (a : Nat) :
    (∀ x ∈ place.layOut a blocks, a ≤ x.2.base) ∧
      (place.layOut a blocks).Pairwise fun x y ↦ x.2.stop ≤ y.2.base := by
  induction blocks generalizing a with
  | nil => exact ⟨nofun, .nil⟩
  | cons x blocks ih =>
    obtain ⟨hstart, hpair⟩ := ih (a + x.2.length)
    refine ⟨?_, List.pairwise_cons.2 ⟨fun y hy ↦ hstart y hy, hpair⟩⟩
    intro y hy
    rcases List.mem_cons.1 hy with rfl | hy
    · exact Nat.le_refl _
    · exact Nat.le_trans (Nat.le_add_right _ _) (hstart y hy)

/-- The regions of a stored value are apart from each other. -/
theorem pairwise_apart_store (t : Ty) (v : t.Value) (start : Nat) :
    (t.store v start).regions.Pairwise Region.Apart := by
  obtain ⟨-, hblocks⟩ := pairwise_layOut (t.storage v) start
  refine List.pairwise_cons.2 ⟨?_, List.pairwise_map.2 (hblocks.imp .inl)⟩
  intro r hr
  obtain ⟨x, hx, rfl⟩ := List.mem_map.1 hr
  exact .inr ((List.le_foldl_max (fun x ↦ x.2.stop) (t.place v start) start).2 x hx)

/-- The memory of a stored value holds the value's own storage where the encoding refers to it. -/
theorem holds_storage (t : Ty) (v : t.Value) (start : Nat) (others : List Region) :
    ∀ x ∈ t.storage v, (Memory.ofRegions ((t.store v start).regions ++ others)).Holds
      (Home.ofLayout (t.place v start) x.1) x.2 := by
  rintro ⟨path, block⟩ hx
  obtain ⟨b, hb⟩ := exists_lookup_layOut (t.nodup_storage v) hx start
  have hhome : Home.ofLayout (t.place v start) path = b := by rw [Home.ofLayout, place, hb]
  have hmem : (path, ⟨b, block.toArray⟩) ∈ t.place v start := by
    obtain ⟨before, after, hplace, -⟩ := List.lookup_eq_some_iff.1 hb
    rw [place, hplace]
    exact List.mem_append_right _ List.mem_cons_self
  rw [hhome]
  exact Memory.holds_ofRegions (t.pairwise_apart_store v start)
    (List.mem_cons_of_mem _ (List.mem_map_of_mem hmem)) others

/-! ### The round trip -/

/-- A value is read back from its flat encoding in any memory that holds the buffer and the value's
own storage. -/
theorem readAt_flatten {m : Memory} {t : Ty} {v : t.Value} {home : Home} {base : Nat}
    (hcount : t.Countable v) (hm : m.Addressable)
    (hbuffer : m.Holds base (t.flatten v home base).bytes.toList)
    (hstored : ∀ x ∈ t.storage v, m.Holds (home x.1) x.2) :
    t.readAt m (UInt64.ofNat (t.flatten v home base).refAddress).toNat = .ok v := by
  obtain ⟨hputs, href⟩ := holdsPuts_of_holds_flatten hbuffer
  rw [UInt64.toNat_ofNat']
  exact readsBack hm t hcount hstored ⟨base⟩ _ hputs (hm.holds_mod href)

/-- A stored value is read back from the heap that it has been stored in. -/
theorem readAt_store {h : Heap} {t : Ty} {v : t.Value} (hcount : t.Countable v)
    (htop : (h.store t v).2.top ≤ 2 ^ 64) :
    t.readAt (h.store t v).2.memory (UInt64.ofNat (h.store t v).1.refAddress).toNat = .ok v := by
  have hbuffer := Memory.holds_ofRegions (t.pairwise_apart_store v h.top)
    List.mem_cons_self h.regions
  exact readAt_flatten hcount (Heap.addressable_memory htop) hbuffer
    (t.holds_storage v h.top h.regions)

/-- **Decoding undoes encoding.** A value is read back from the address that a record carries for
it, wherever its buffer and its own storage are, and so is a value that has been stored in a
heap. -/
theorem readAt_refAddress (t : Ty) (v : t.Value) (hcount : t.Countable v) :
    (∀ (m : Memory) (home : Home) (base : Nat), m.Addressable →
      m.Holds base (t.flatten v home base).bytes.toList →
      (∀ x ∈ t.storage v, m.Holds (home x.1) x.2) →
      t.readAt m (UInt64.ofNat (t.flatten v home base).refAddress).toNat = .ok v) ∧
    ∀ h : Heap, (h.store t v).2.top ≤ 2 ^ 64 →
      t.readAt (h.store t v).2.memory (UInt64.ofNat (h.store t v).1.refAddress).toNat = .ok v :=
  ⟨fun _ _ _ hm hbuffer hstored ↦ readAt_flatten hcount hm hbuffer hstored,
    fun _ htop ↦ readAt_store hcount htop⟩

/-- Two greetings, one of them with an empty tag and one without any. -/
def twoGuests : (list greeting).Value :=
  ([⟨7, "ab", ["x", ""]⟩, ⟨8, "", []⟩] : List Greeting)

/-- The name of the first guest is at 3, and all other storage at 5. -/
def guestHome : Home := fun path ↦ if path = [0, 0] then 3 else 5

/-- The storage of the guests, and their encoding at an odd address. -/
def guestHeap : Heap :=
  ⟨[((list greeting).flatten twoGuests guestHome 9).region, ⟨3, #[97, 98]⟩, ⟨5, #[120]⟩]⟩

theorem readAt_refAddress_twoGuests :
    (list greeting).readAt guestHeap.memory
        (UInt64.ofNat ((list greeting).flatten twoGuests guestHome 9).refAddress).toNat =
      .ok twoGuests ∧
    (list greeting).readAt (guestHeap.store (list greeting) twoGuests).2.memory
        (UInt64.ofNat (guestHeap.store (list greeting) twoGuests).1.refAddress).toNat =
      .ok twoGuests := by
  have hcount : (list greeting).Countable twoGuests := by decide
  obtain ⟨hflat, hstore⟩ := readAt_refAddress (list greeting) twoGuests hcount
  have hm : guestHeap.memory.Addressable := Heap.addressable_memory (by decide +kernel)
  refine ⟨hflat guestHeap.memory guestHome 9 hm ?_ ?_, hstore guestHeap (by decide +kernel)⟩
  · decide +kernel
  · decide +kernel

end Ty

end RingCall.Wire
