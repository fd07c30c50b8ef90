import Mathlib.Data.List.Basic
import RingCall.Proofs.Wire.ReadBack

/-!
# The buffer of a flat encoding

Measuring and writing agree: a value is written into exactly as many bytes as were measured, and no
two of its writes share a byte (`Ty.takes_write`). So no write is lost when the buffer is filled
(`getElem?_fill`), and whoever holds the buffer holds everything that was put down
(`Ty.holdsPuts_of_holds_flatten`).

The elements of a list are written between writes into their slots. Up to a permutation, the writes
into the slots come first, and then the bytes of one element behind those of another
(`exists_perm_writeEach`).
-/

namespace RingCall.Wire

/-! ### Writes that share no byte -/

namespace Put

/-- The first address behind what was put down. -/
def stop (p : Put) : Nat := p.address + p.bytes.length

/-- Two writes share no byte. -/
def Apart (p q : Put) : Prop := p.stop ≤ q.address ∨ q.stop ≤ p.address

theorem Apart.symm {p q : Put} (h : p.Apart q) : q.Apart p := Or.symm h

end Put

/-- Writes that stay between two addresses, and of which no two share a byte. -/
structure Confined (puts : List Put) (start stop : Nat) : Prop where
  within : ∀ p ∈ puts, start ≤ p.address ∧ p.stop ≤ stop
  apart : puts.Pairwise Put.Apart

namespace Confined

variable {puts puts' : List Put} {a b c : Nat}

theorem nil (a b : Nat) : Confined [] a b := ⟨nofun, .nil⟩

theorem singleton (a : Nat) (bytes : List UInt8) : Confined [⟨a, bytes⟩] a (a + bytes.length) := by
  refine ⟨?_, List.pairwise_singleton _ _⟩
  intro p hp
  obtain rfl := List.mem_singleton.1 hp
  exact ⟨Nat.le_refl _, Nat.le_refl _⟩

/-- Writes confined to adjacent stretches are confined to their union. -/
theorem append (h : Confined puts a b) (h' : Confined puts' b c) (hab : a ≤ b) (hbc : b ≤ c) :
    Confined (puts ++ puts') a c := by
  refine ⟨?_, List.pairwise_append.2 ⟨h.apart, h'.apart, ?_⟩⟩
  · intro p hp
    rcases List.mem_append.1 hp with hp | hp
    · obtain ⟨hstart, hstop⟩ := h.within p hp
      exact ⟨hstart, Nat.le_trans hstop hbc⟩
    · obtain ⟨hstart, hstop⟩ := h'.within p hp
      exact ⟨Nat.le_trans hab hstart, hstop⟩
  · intro p hp q hq
    exact .inl (Nat.le_trans (h.within p hp).2 (h'.within q hq).1)

theorem perm (h : Confined puts a b) (hperm : puts.Perm puts') : Confined puts' a b :=
  ⟨fun p hp ↦ h.within p (hperm.mem_iff.2 hp), hperm.pairwise h.apart Put.Apart.symm⟩

end Confined

/-! ### Lists -/

section Lists

variable {α : Type} {write : α → Home → Pen → Written} {size : Nat} {flat : α → Nat}

/-- Writing a value takes a given number of bytes at the pen, and everything is put down there. -/
structure Takes (write : α → Home → Pen → Written) (flat : α → Nat) : Prop where
  pos : ∀ x home pen, (write x home pen).pen.pos = pen.pos + flat x
  confined : ∀ x home pen, Confined (write x home pen).puts pen.pos (pen.pos + flat x)

/-- Up to a permutation, the slots are written first, and then one element behind another. -/
theorem exists_perm_writeEach (hw : Takes write flat)
    (href : ∀ x home pen, (write x home pen).ref.length = size) (home : Home) (i : Nat)
    (xs : List α) (slots pen : Pen) :
    (writeEach write home i xs slots pen).1.pos = pen.pos + (xs.map flat).sum ∧
      ∃ ss es, (ss ++ es).Perm (writeEach write home i xs slots pen).2 ∧
        Confined ss slots.pos (slots.pos + xs.length * size) ∧
        Confined es pen.pos (pen.pos + (xs.map flat).sum) := by
  induction xs generalizing i slots pen with
  | nil => exact ⟨rfl, [], [], .nil, .nil _ _, .nil _ _⟩
  | cons x xs ih =>
    obtain ⟨hpos, ss, es, hperm, hss, hes⟩ := ih (i + 1)
      ⟨slots.pos + (write x (home.child i) pen).ref.length⟩ (write x (home.child i) pen).pen
    rw [hw.pos] at hpos hes
    rw [href] at hss
    have hlen : slots.pos + (x :: xs).length * size = slots.pos + size + xs.length * size := by
      rw [List.length_cons, Nat.succ_mul, Nat.add_assoc, Nat.add_comm size]
    have hsum : pen.pos + ((x :: xs).map flat).sum = pen.pos + flat x + (xs.map flat).sum := by
      rw [List.map_cons, List.sum_cons, Nat.add_assoc]
    have hslot := Confined.singleton slots.pos (write x (home.child i) pen).ref
    rw [href] at hslot
    refine ⟨?_, ⟨slots.pos, (write x (home.child i) pen).ref⟩ :: ss,
      (write x (home.child i) pen).puts ++ es, ?_, ?_, ?_⟩
    · rw [hsum]
      exact hpos
    -- the slot and what the element puts down are both moved in front
    · have hmove := List.perm_append_comm_assoc ss (write x (home.child i) pen).puts es
      exact ((hmove.trans (hperm.append_left _)).cons _).trans List.perm_middle.symm
    · rw [hlen]
      exact hslot.append hss (Nat.le_add_right _ _) (Nat.le_add_right _ _)
    · rw [hsum]
      exact (hw.confined x _ pen).append hes (Nat.le_add_right _ _) (Nat.le_add_right _ _)

/-- Writing a list out takes the slots and what the elements take. -/
theorem takes_writeOut (hw : Takes write flat)
    (href : ∀ x home pen, (write x home pen).ref.length = size) :
    Takes (writeOut size write) fun xs ↦ xs.length * size + (xs.map flat).sum := by
  refine ⟨?_, ?_⟩
  · intro xs home pen
    rw [← Nat.add_assoc]
    exact (exists_perm_writeEach hw href home 0 xs _ _).1
  · intro xs home pen
    obtain ⟨-, ss, es, hperm, hss, hes⟩ :=
      exists_perm_writeEach hw href home 0 xs pen ⟨pen.pos + xs.length * size⟩
    rw [← Nat.add_assoc]
    exact (hss.append hes (Nat.le_add_right _ _) (Nat.le_add_right _ _)).perm hperm

theorem takes_writeText : Takes writeText fun _ ↦ 0 :=
  ⟨fun _ _ _ ↦ rfl, fun _ _ _ ↦ .nil _ _⟩

/-- Adding one size after another comes to adding their sum. -/
theorem addSize_addSize (checked : Bool) (acc : UInt64) (m n : Nat) :
    ((addSize checked acc m).bind fun acc ↦ addSize checked acc n) =
      addSize checked acc (m + n) := by
  have hacc := acc.toNat_lt_size
  by_cases hm : checked = true ∧ UInt64.size ≤ acc.toNat + m
  · have hmn : checked = true ∧ UInt64.size ≤ acc.toNat + (m + n) := ⟨hm.1, by omega⟩
    rw [addSize, if_pos hm, addSize, if_pos hmn]
    rfl
  · have hsum : acc + .ofNat m + .ofNat n = acc + UInt64.ofNat (m + n) := by
      rw [UInt64.ofNat_add, UInt64.add_assoc]
    rw [addSize, if_neg hm, addSize, ← hsum]
    show addSize checked (acc + .ofNat m) n = _
    rw [addSize]
    cases checked with
    | false => simp
    | true =>
      -- the sum so far is a word, so that nothing is lost of it
      have hlt : acc.toNat + m < UInt64.size := by simpa using hm
      have hnat : (acc + .ofNat m).toNat = acc.toNat + m := by
        rw [UInt64.toNat_add, UInt64.toNat_ofNat_of_lt' (by omega)]
        exact Nat.mod_eq_of_lt hlt
      rw [hnat, Nat.add_assoc]

/-- Measuring nothing leaves the accumulator alone, whatever the accumulator. -/
theorem addSize_zero (checked : Bool) (acc : UInt64) : addSize checked acc 0 = some acc := by
  have hacc := acc.toNat_lt_size
  rw [addSize, if_neg (by omega)]
  exact congrArg some (UInt64.add_zero acc)

/-- Adding sizes one by one does what adding their total does, overflow included. -/
theorem foldlM_addSize {checked : Bool} {f : UInt64 → α → Option UInt64}
    (hf : ∀ acc x, f acc x = addSize checked acc (size + flat x)) (acc : UInt64) (xs : List α) :
    xs.foldlM f acc = addSize checked acc (xs.length * size + (xs.map flat).sum) := by
  induction xs generalizing acc with
  | nil =>
    rw [List.length_nil, Nat.zero_mul, List.map_nil, List.sum_nil]
    exact (addSize_zero checked acc).symm
  | cons x xs ih =>
    have hsum : (x :: xs).length * size + ((x :: xs).map flat).sum =
        size + flat x + (xs.length * size + (xs.map flat).sum) := by
      rw [List.length_cons, Nat.succ_mul, List.map_cons, List.sum_cons]
      omega
    rw [List.foldlM_cons, hf, hsum, ← addSize_addSize checked acc (size + flat x)]
    exact congrArg (Option.bind _) (funext ih)

end Lists

/-! ### Values -/

namespace Ty

theorem flatSize_list {t : Ty} (ht : t.kind ≠ .primitive) (xs : List t.Value) :
    (list t).flatSize xs = xs.length * t.refSize + (xs.map t.flatSize).sum :=
  if_pos (kind_list_eq_complex_iff.2 ht)

theorem flatSize_greeting (g : Greeting) :
    greeting.flatSize g = g.tags.length * viewSize + (g.tags.map fun _ ↦ 0).sum := by
  rw [List.map_const', List.sum_replicate_nat, Nat.mul_zero]
  rfl

/-- **Measuring adds what writing takes**, and the size of the reference where it counts. -/
theorem measure_eq (checked : Bool) (t : Ty) (v : t.Value) (withRef : Bool) (acc : UInt64) :
    t.measure checked v withRef acc =
      addSize checked acc ((if withRef then t.refSize else 0) + t.flatSize v) := by
  -- the value's own reference comes first
  have hfirst (n : Nat) : (if withRef then addSize checked acc n else some acc) =
      addSize checked acc (if withRef then n else 0) := by
    cases withRef with
    | false => exact (addSize_zero checked acc).symm
    | true => rfl
  induction t generalizing withRef acc with
  | prim p => exact hfirst p.width
  | string => exact hfirst viewSize
  | list t ih =>
    rw [← addSize_addSize, ← hfirst]
    refine congrArg (Option.bind _) (funext fun acc ↦ ?_)
    by_cases ht : t.kind = .primitive
    · obtain ⟨p, rfl⟩ := kind_eq_primitive_iff.1 ht
      exact (addSize_zero checked acc).symm
    · rw [if_pos (kind_list_eq_complex_iff.2 ht), show (list t).flatSize v =
        _ from flatSize_list ht v]
      exact foldlM_addSize (fun acc x ↦ ih x true acc fun _ ↦ rfl) acc v
  | greeting =>
    rw [← addSize_addSize, ← hfirst]
    refine congrArg (Option.bind _) (funext fun acc ↦ ?_)
    have htags : ∀ ss : List String, ss.foldlM (fun acc _ ↦ addSize checked acc viewSize) acc =
        addSize checked acc (ss.length * viewSize + (ss.map fun _ ↦ 0).sum) :=
      @foldlM_addSize String viewSize (fun _ ↦ 0) checked _ (fun _ _ ↦ rfl) acc
    exact (htags (Greeting.tags v)).trans
      (congrArg (addSize checked acc) (flatSize_greeting v).symm)

/-- **Writing takes as many bytes as are measured**, and no two of its writes share a byte. -/
theorem takes_write (t : Ty) : Takes t.write t.flatSize := by
  induction t with
  | prim p => exact ⟨fun _ _ _ ↦ rfl, fun _ _ _ ↦ .nil _ _⟩
  | string => exact takes_writeText
  | list t ih =>
    by_cases ht : t.kind = .primitive
    · obtain ⟨p, rfl⟩ := kind_eq_primitive_iff.1 ht
      exact ⟨fun _ _ _ ↦ rfl, fun _ _ _ ↦ .nil _ _⟩
    · rw [write_list ht, show (list t).flatSize = _ from funext (flatSize_list ht)]
      exact takes_writeOut ih t.length_ref
  | greeting =>
    have htags := takes_writeOut takes_writeText fun _ _ _ ↦ length_viewBytes _ _
    rw [show greeting.flatSize = _ from funext flatSize_greeting]
    exact ⟨fun g home pen ↦ htags.pos g.tags (home.child 1) pen,
      fun g home pen ↦ htags.confined g.tags (home.child 1) pen⟩

end Ty

/-! ### The bytes of the buffer -/

/-- Overwriting a stretch leaves every byte outside of it as it was. -/
theorem getElem?_overwrite_of_outside {buffer : Array UInt8} {offset j : Nat} {bytes : List UInt8}
    (h : j < offset ∨ offset + bytes.length ≤ j) :
    (overwrite buffer offset bytes)[j]? = buffer[j]? := by
  induction bytes generalizing buffer offset with
  | nil => rfl
  | cons b bytes ih =>
    rw [List.length_cons] at h
    rw [overwrite, ih (by omega), Array.getElem?_setIfInBounds_ne (by omega)]

/-- Overwriting a stretch puts each new byte at its place. -/
theorem getElem?_overwrite_add {buffer : Array UInt8} {offset i : Nat}
    {bytes : List UInt8} {b : UInt8} (hfits : offset + bytes.length ≤ buffer.size)
    (hi : bytes[i]? = some b) :
    (overwrite buffer offset bytes)[offset + i]? = some b := by
  induction bytes generalizing buffer offset i with
  | nil => cases hi
  | cons c bytes ih =>
    rw [List.length_cons] at hfits
    rw [overwrite]
    rcases i with - | i
    · obtain rfl := Option.some.inj hi
      rw [getElem?_overwrite_of_outside (by omega)]
      exact Array.getElem?_setIfInBounds_self_of_lt (by omega)
    · rw [← Nat.add_assoc, Nat.add_right_comm]
      exact ih (by rw [Array.size_setIfInBounds]; omega) hi

/-- A buffer at an address, after the writes. -/
def fill (base : Nat) (buffer : Array UInt8) (puts : List Put) : Array UInt8 :=
  puts.foldl (fun buffer p ↦ overwrite buffer (p.address - base) p.bytes) buffer

@[simp]
theorem size_fill (base : Nat) (buffer : Array UInt8) (puts : List Put) :
    (fill base buffer puts).size = buffer.size := by
  induction puts generalizing buffer with
  | nil => rfl
  | cons p puts ih => exact (ih _).trans (size_overwrite _ _ _)

/-- A byte that no write covers keeps its value. -/
theorem getElem?_fill_of_outside {base j : Nat} {buffer : Array UInt8} {puts : List Put}
    (h : ∀ p ∈ puts, base ≤ p.address ∧ (base + j < p.address ∨ p.stop ≤ base + j)) :
    (fill base buffer puts)[j]? = buffer[j]? := by
  induction puts generalizing buffer with
  | nil => rfl
  | cons p puts ih =>
    obtain ⟨hbase, hp⟩ := h p List.mem_cons_self
    rw [Put.stop] at hp
    exact (ih fun q hq ↦ h q (List.mem_cons_of_mem _ hq)).trans
      (getElem?_overwrite_of_outside (by omega))

/-- Every write is still there when the buffer has been filled. -/
theorem getElem?_fill {base i : Nat} {buffer : Array UInt8} {puts : List Put} {p : Put} {b : UInt8}
    (h : Confined puts base (base + buffer.size)) (hp : p ∈ puts) (hi : p.bytes[i]? = some b) :
    (fill base buffer puts)[p.address - base + i]? = some b := by
  induction puts generalizing buffer with
  | nil => cases hp
  | cons q puts ih =>
    obtain ⟨hapart, hrest⟩ := List.pairwise_cons.1 h.apart
    rcases List.mem_cons.1 hp with rfl | hp
    · obtain ⟨hbase, hstop⟩ := h.within p List.mem_cons_self
      have hlt : i < p.bytes.length := (List.getElem?_eq_some_iff.1 hi).1
      rw [Put.stop] at hstop
      -- no later write touches the byte
      have hlater : ∀ r ∈ puts, base ≤ r.address ∧
          (base + (p.address - base + i) < r.address ∨ r.stop ≤ base + (p.address - base + i)) := by
        intro r hr
        have hpr : p.stop ≤ r.address ∨ r.stop ≤ p.address := hapart r hr
        rw [Put.stop] at hpr
        exact ⟨(h.within r (List.mem_cons_of_mem _ hr)).1, by omega⟩
      exact (getElem?_fill_of_outside hlater).trans (getElem?_overwrite_add (by omega) hi)
    · refine ih ⟨?_, hrest⟩ hp
      intro r hr
      rw [size_overwrite]
      exact h.within r (List.mem_cons_of_mem _ hr)

/-- Whoever holds the buffer of a flat encoding and the reference behind it holds all that was put
down while the value was written. -/
theorem Ty.holdsPuts_of_holds_flatten {m : Memory} {t : Ty} {v : t.Value} {home : Home} {base : Nat}
    (h : m.Holds base (t.flatten v home base).bytes.toList) :
    HoldsPuts m (t.write v home ⟨base⟩).puts ∧
      m.Holds (t.flatten v home base).refAddress (t.write v home ⟨base⟩).ref := by
  have hbytes : (t.flatten v home base).bytes =
      fill base (Array.replicate (t.flatSize v) 0) (t.write v home ⟨base⟩).puts ++
        (t.write v home ⟨base⟩).ref.toArray := rfl
  have hsize : (Array.replicate (t.flatSize v) (0 : UInt8)).size = t.flatSize v :=
    Array.size_replicate
  rw [hbytes, Array.toList_append, Memory.holds_append_iff, Array.length_toList,
    size_fill, hsize] at h
  obtain ⟨hbuffer, href⟩ := h
  refine ⟨?_, href⟩
  intro p hp i b hi
  have hconfined := t.takes_write.confined v home ⟨base⟩
  have hbase : base ≤ p.address := (hconfined.within p hp).1
  rw [← hsize] at hconfined
  have hbyte := hbuffer _ b (Array.getElem?_toList.trans (getElem?_fill hconfined hp hi))
  rwa [← Nat.add_assoc, Nat.add_sub_cancel' hbase] at hbyte

end RingCall.Wire
