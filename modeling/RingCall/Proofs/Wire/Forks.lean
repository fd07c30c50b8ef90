import Mathlib.Data.List.Perm.Basic
import RingCall.Proofs.Steps
import RingCall.Proofs.Wire.Buffer
import RingCall.Wire.Pen

/-!
# Pens stay out of each other's way

Scalars are put on a sheet with any of its pens, and pens are forked off pens, in any order. Each of
these splits what a pen still owns in two: what it moves past, and what is left to it. The first
part is now taken by a scalar or owned by a new pen (`Draft.perm_stretches_step`). So what the
scalars take and what the pens still own never meets, since it was made by splitting one stretch of
bytes again and again (`Parcelled.split`), however deep the forks go.

As no scalar is put where another one was, the sheet is filled as by writing the scalars one after
another into the bytes that were there (`Draft.Orderly`), and what is known about such a buffer
holds: each scalar is read back, and the other bytes are as they were (`Draft.apart_run?`).
-/

namespace RingCall.Wire

/-! ### Stretches of bytes -/

/-- A stretch of bytes, from a position up to another one. -/
structure Stretch where
  start : Nat
  stop : Nat
  deriving DecidableEq

namespace Stretch

/-- Two stretches share no byte, since one of them ends before the other begins. -/
def Apart (s t : Stretch) : Prop := s.stop ≤ t.start ∨ t.stop ≤ s.start

theorem Apart.symm {s t : Stretch} (h : s.Apart t) : t.Apart s := Or.symm h

end Stretch

/-- Stretches of a buffer of which no two share a byte. -/
structure Parcelled (size : Nat) (stretches : List Stretch) : Prop where
  within : ∀ s ∈ stretches, s.stop ≤ size
  apart : stretches.Pairwise Stretch.Apart

namespace Parcelled

variable {size a b c : Nat} {stretches stretches' : List Stretch}

theorem perm (h : Parcelled size stretches) (hperm : stretches.Perm stretches') :
    Parcelled size stretches' :=
  ⟨fun s hs ↦ h.within s (hperm.mem_iff.2 hs), hperm.pairwise h.apart Stretch.Apart.symm⟩

/-- **Splitting a stretch in two** leaves the stretches apart. -/
theorem split (h : Parcelled size (⟨a, c⟩ :: stretches)) (hab : a ≤ b) (hbc : b ≤ c) :
    Parcelled size (⟨a, b⟩ :: ⟨b, c⟩ :: stretches) := by
  obtain ⟨hwhole, hrest⟩ := List.pairwise_cons.1 h.apart
  obtain ⟨hstop, hwithin⟩ := List.forall_mem_cons.1 h.within
  refine ⟨?_, List.pairwise_cons.2 ⟨?_, List.pairwise_cons.2 ⟨?_, hrest⟩⟩⟩
  · exact List.forall_mem_cons.2 ⟨Nat.le_trans hbc hstop, List.forall_mem_cons.2 ⟨hstop, hwithin⟩⟩
  · refine List.forall_mem_cons.2 ⟨.inl (Nat.le_refl b), fun s hs ↦ ?_⟩
    exact (hwhole s hs).imp_left (Nat.le_trans hbc)
  · intro s hs
    exact (hwhole s hs).imp_right fun hbefore ↦ Nat.le_trans hbefore hab

end Parcelled

/-! ### Scalars on a sheet -/

/-- A scalar that was put at a position. -/
structure Inscription where
  position : Nat
  type : Prim
  value : type.Value

namespace Inscription

/-- What was put down. -/
def put (e : Inscription) : Put := ⟨e.position, e.type.toBytes e.value⟩

/-- The bytes that a scalar takes. -/
def stretch (e : Inscription) : Stretch := ⟨e.position, e.position + e.type.width⟩

theorem stop_put (e : Inscription) : e.put.stop = e.position + e.type.width :=
  congrArg (e.position + ·) (Prim.length_toBytes _ _)

/-- A scalar, wherever it was put. -/
def scalar (e : Inscription) : Σ p : Prim, p.Value := ⟨e.type, e.value⟩

end Inscription

/-- The bytes that a pen still owns. -/
def Span.rest (s : Span) : Stretch := ⟨s.pen.pos, s.stop⟩

namespace Sheet

variable {s s' : Sheet} {w n : Nat}

/-- Bytes are put if the pen's span has room for them. -/
theorem put?_eq_some_iff {bytes : List UInt8} :
    s.put? w bytes = some s' ↔
      ∃ span, s.spans[w]? = some span ∧ span.pen.pos + bytes.length ≤ span.stop ∧
        s' = ⟨overwrite s.bytes span.pen.pos bytes,
          s.spans.set w ⟨⟨span.pen.pos + bytes.length⟩, span.stop⟩⟩ := by
  constructor
  · intro h
    obtain ⟨span, hspan, h⟩ := Option.bind_eq_some_iff.1 h
    obtain ⟨hfits, h⟩ := Option.ite_none_right_eq_some.1 h
    exact ⟨span, hspan, hfits, (Option.some.inj h).symm⟩
  · rintro ⟨span, hspan, hfits, rfl⟩
    rw [put?, hspan]
    exact if_pos hfits

/-- A pen is forked off if the other pen's span has room for what it is to own. -/
theorem reserve?_eq_some_iff :
    s.reserve? w n = some s' ↔
      ∃ span, s.spans[w]? = some span ∧ span.pen.pos + n ≤ span.stop ∧
        s' = ⟨s.bytes, s.spans.set w ⟨⟨span.pen.pos + n⟩, span.stop⟩ ++
          [⟨span.pen, span.pen.pos + n⟩]⟩ := by
  constructor
  · intro h
    obtain ⟨span, hspan, h⟩ := Option.bind_eq_some_iff.1 h
    obtain ⟨hfits, h⟩ := Option.ite_none_right_eq_some.1 h
    exact ⟨span, hspan, hfits, (Option.some.inj h).symm⟩
  · rintro ⟨span, hspan, hfits, rfl⟩
    rw [reserve?, hspan]
    exact if_pos hfits

end Sheet

theorem Memory.ofRegions_singleton_add (base : Nat) (bytes : Array UInt8) (i : Nat) :
    Memory.ofRegions [⟨base, bytes⟩] (base + i) = bytes[i]? := by
  simp [Memory.ofRegions, Region.byte?]

/-- What can be done with pen `w`. -/
inductive Stroke where
  /-- Puts a scalar at the pen. -/
  | put (w : Nat) (type : Prim) (value : type.Value)
  /-- Forks a new pen off that owns the next `n` bytes. -/
  | reserve (w n : Nat)

/-- The scalar that is put, if any. -/
def Stroke.scalar? : Stroke → Option (Σ p : Prim, p.Value)
  | put _ type value => some ⟨type, value⟩
  | reserve _ _ => none

/-- A sheet with the scalars that were put on it, the oldest first. -/
structure Draft where
  sheet : Sheet
  inscriptions : List Inscription

namespace Draft

variable {bytes : Array UInt8} {d d' : Draft} {stroke : Stroke}

/-- A sheet with some bytes on it and a pen that owns them all. -/
def fresh (bytes : Array UInt8) : Draft := ⟨⟨bytes, [⟨⟨0⟩, bytes.size⟩]⟩, []⟩

/-- Does a stroke, if the pen stays within its span. -/
def step (d : Draft) : Stroke → Option Draft
  | .put w type value => do
    let span ← d.sheet.spans[w]?
    let sheet ← d.sheet.put? w (type.toBytes value)
    return ⟨sheet, d.inscriptions ++ [⟨span.pen.pos, type, value⟩]⟩
  | .reserve w n => do
    let sheet ← d.sheet.reserve? w n
    return { d with sheet }

/-- Does strokes one after another, if every pen stays within its span. -/
def run? (d : Draft) (strokes : List Stroke) : Option Draft := strokes.foldlM step d

/-- The bytes that the scalars take, and those that the pens still own. -/
def stretches (d : Draft) : List Stretch :=
  d.inscriptions.map Inscription.stretch ++ d.sheet.spans.map Span.rest

theorem step_put_eq_some {w : Nat} {type : Prim} {value : type.Value}
    (h : d.step (.put w type value) = some d') :
    ∃ span, d.sheet.spans[w]? = some span ∧ span.pen.pos + type.width ≤ span.stop ∧
      d' = ⟨⟨overwrite d.sheet.bytes span.pen.pos (type.toBytes value),
        d.sheet.spans.set w ⟨⟨span.pen.pos + type.width⟩, span.stop⟩⟩,
        d.inscriptions ++ [⟨span.pen.pos, type, value⟩]⟩ := by
  obtain ⟨span, hspan, h⟩ := Option.bind_eq_some_iff.1 h
  obtain ⟨sheet, hsheet, h⟩ := Option.bind_eq_some_iff.1 h
  obtain rfl := Option.some.inj h
  obtain ⟨span', hspan', hfits, rfl⟩ := Sheet.put?_eq_some_iff.1 hsheet
  obtain rfl := Option.some.inj (hspan.symm.trans hspan')
  rw [Prim.length_toBytes] at hfits ⊢
  exact ⟨span, hspan, hfits, rfl⟩

theorem step_reserve_eq_some {w n : Nat} (h : d.step (.reserve w n) = some d') :
    ∃ span, d.sheet.spans[w]? = some span ∧ span.pen.pos + n ≤ span.stop ∧
      d' = ⟨⟨d.sheet.bytes, d.sheet.spans.set w ⟨⟨span.pen.pos + n⟩, span.stop⟩ ++
        [⟨span.pen, span.pen.pos + n⟩]⟩, d.inscriptions⟩ := by
  obtain ⟨sheet, hsheet, h⟩ := Option.bind_eq_some_iff.1 h
  obtain rfl := Option.some.inj h
  obtain ⟨span, hspan, hfits, rfl⟩ := Sheet.reserve?_eq_some_iff.1 hsheet
  exact ⟨span, hspan, hfits, rfl⟩

/-- A pen that moves on to `b` owns what is behind `b`, and all else is as it was. -/
theorem perm_stretches_set {w : Nat} {span : Span} (h : d.sheet.spans[w]? = some span) (b : Nat) :
    ∃ others, d.stretches.Perm (span.rest :: others) ∧
      (d.inscriptions.map Inscription.stretch ++
        (d.sheet.spans.set w ⟨⟨b⟩, span.stop⟩).map Span.rest).Perm (⟨b, span.stop⟩ :: others) := by
  obtain ⟨hlt, rfl⟩ := List.getElem?_eq_some_iff.1 h
  have hbefore := (List.getElem_cons_eraseIdx_perm hlt).symm.map Span.rest
  have hafter := (List.set_perm_cons_eraseIdx hlt ⟨⟨b⟩, d.sheet.spans[w].stop⟩).map Span.rest
  exact ⟨d.inscriptions.map Inscription.stretch ++ (d.sheet.spans.eraseIdx w).map Span.rest,
    (hbefore.append_left _).trans List.perm_middle, (hafter.append_left _).trans List.perm_middle⟩

/-- Whatever is done splits what one of the pens owns in two. -/
theorem perm_stretches_step (h : d.step stroke = some d') :
    ∃ a b c others, d.stretches.Perm (⟨a, c⟩ :: others) ∧
      d'.stretches.Perm (⟨a, b⟩ :: ⟨b, c⟩ :: others) ∧ a ≤ b ∧ b ≤ c := by
  cases stroke with
  | put w type value =>
    obtain ⟨span, hspan, hfits, rfl⟩ := step_put_eq_some h
    obtain ⟨others, hbefore, hafter⟩ := perm_stretches_set hspan (span.pen.pos + type.width)
    refine ⟨_, span.pen.pos + type.width, _, others, hbefore, ?_, Nat.le_add_right _ _, hfits⟩
    -- the scalar has come between those that were there and the pens
    rw [stretches, List.map_append, List.append_assoc]
    exact List.perm_middle.trans (hafter.cons _)
  | reserve w n =>
    obtain ⟨span, hspan, hfits, rfl⟩ := step_reserve_eq_some h
    obtain ⟨others, hbefore, hafter⟩ := perm_stretches_set hspan (span.pen.pos + n)
    refine ⟨_, span.pen.pos + n, _, others, hbefore, ?_, Nat.le_add_right _ _, hfits⟩
    -- the new pen is the last one
    rw [stretches, List.map_append, ← List.append_assoc]
    exact (List.perm_append_singleton _ _).trans (hafter.cons _)

/-- **The sheet is in order**: no two of the scalars and the pens share a byte, and nothing else
than the scalars has been written into what was there. -/
structure Orderly (bytes : Array UInt8) (d : Draft) : Prop where
  parcelled : Parcelled bytes.size d.stretches
  filled : d.sheet.bytes = fill 0 bytes (d.inscriptions.map Inscription.put)

theorem orderly_fresh (bytes : Array UInt8) : Orderly bytes (fresh bytes) where
  parcelled := ⟨List.forall_mem_singleton.2 (Nat.le_refl _), List.pairwise_singleton _ _⟩
  filled := rfl

/-- Each stroke leaves the sheet in order. -/
theorem Orderly.step (hd : Orderly bytes d) (h : d.step stroke = some d') : Orderly bytes d' where
  parcelled := by
    obtain ⟨a, b, c, others, hbefore, hafter, hab, hbc⟩ := perm_stretches_step h
    exact ((hd.parcelled.perm hbefore).split hab hbc).perm hafter.symm
  filled := by
    cases stroke with
    | put w type value =>
      obtain ⟨span, -, -, rfl⟩ := step_put_eq_some h
      rw [List.map_append, fill, List.foldl_append]
      exact congrArg (overwrite · span.pen.pos (type.toBytes value)) hd.filled
    | reserve w n =>
      obtain ⟨span, -, -, rfl⟩ := step_reserve_eq_some h
      exact hd.filled

theorem orderly_run? {strokes : List Stroke} (h : (fresh bytes).run? strokes = some d) :
    Orderly bytes d :=
  foldlM_preserves (fun _ _ _ _ hstep hd ↦ hd.step hstep) h (orderly_fresh bytes)

/-- The scalars were written into the buffer, and no two of them share a byte. -/
theorem Orderly.confined (hd : Orderly bytes d) :
    Confined (d.inscriptions.map Inscription.put) 0 (0 + bytes.size) where
  within := by
    intro p hp
    obtain ⟨e, he, rfl⟩ := List.mem_map.1 hp
    have hstop := hd.parcelled.within e.stretch (List.mem_append_left _ (List.mem_map_of_mem he))
    rw [Nat.zero_add, e.stop_put]
    exact ⟨Nat.zero_le _, hstop⟩
  apart := by
    have hapart := (List.pairwise_append.1 hd.parcelled.apart).1
    rw [List.pairwise_map] at hapart ⊢
    refine hapart.imp fun {e e'} he ↦ ?_
    rw [Put.Apart, e.stop_put, e'.stop_put]
    exact he

/-- No scalar of a script is left out. -/
theorem scalars_run? {strokes : List Stroke} (h : d.run? strokes = some d') :
    d'.inscriptions.map Inscription.scalar =
      d.inscriptions.map Inscription.scalar ++ strokes.filterMap Stroke.scalar? := by
  induction strokes generalizing d with
  | nil =>
    obtain rfl := Option.some.inj h
    exact (List.append_nil _).symm
  | cons stroke strokes ih =>
    rw [run?, List.foldlM_cons] at h
    obtain ⟨mid, hstep, hrun⟩ := Option.bind_eq_some_iff.1 h
    rw [ih hrun]
    cases stroke with
    | put w type value =>
      obtain ⟨span, -, -, rfl⟩ := step_put_eq_some hstep
      rw [List.map_append, List.append_assoc]
      rfl
    | reserve w n =>
      obtain ⟨span, -, -, rfl⟩ := step_reserve_eq_some hstep
      rfl

/-- **Forked pens never collide.** Put scalars on a buffer and fork pens off pens in any order, with
no pen leaving its span. All of the scalars are then on the sheet, and no two of them and of what
the pens still own share a byte. Every scalar is read back from where it was put, wherever the
buffer is in memory. Every byte that no scalar took is as it was. -/
theorem apart_run? {strokes : List Stroke} (h : (fresh bytes).run? strokes = some d) :
    d.inscriptions.map Inscription.scalar = strokes.filterMap Stroke.scalar? ∧
      (d.inscriptions.map Inscription.stretch ++ d.sheet.spans.map Span.rest).Pairwise
        Stretch.Apart ∧
      (∀ base, ∀ e ∈ d.inscriptions,
        (Memory.ofRegions [⟨base, d.sheet.bytes⟩]).readPrim e.type (base + e.position) =
          .ok e.value) ∧
      ∀ i, (∀ e ∈ d.inscriptions, ¬ (e.position ≤ i ∧ i < e.position + e.type.width)) →
        d.sheet.bytes[i]? = bytes[i]? := by
  have hd := orderly_run? h
  refine ⟨scalars_run? h, hd.parcelled.apart, fun base e he ↦
    Memory.readPrim_of_holds fun i b hi ↦ ?_, fun i hi ↦ ?_⟩
  · have hbyte := getElem?_fill hd.confined (List.mem_map_of_mem he) hi
    rw [← hd.filled] at hbyte
    rw [Nat.add_assoc, Memory.ofRegions_singleton_add]
    exact hbyte
  · rw [hd.filled]
    refine getElem?_fill_of_outside fun p hp ↦ ?_
    obtain ⟨e, he, rfl⟩ := List.mem_map.1 hp
    have hout := hi e he
    rw [e.stop_put]
    change 0 ≤ e.position ∧ (0 + i < e.position ∨ _)
    omega

/-- The pen leaves six bytes to a fork, which leaves two of its bytes to a fork of its own. -/
def forkOfFork : List Stroke :=
  [.reserve 0 6, .put 0 .u32 (3735928559 : UInt32), .reserve 1 2, .put 1 .i16 (-2 : Int16),
    .put 2 .bool true, .put 1 .u8 (7 : UInt8)]

theorem apart_run?_forkOfFork :
    ∃ d, (fresh (Array.replicate 12 170)).run? forkOfFork = some d ∧
      d.inscriptions.map Inscription.stretch = [⟨6, 10⟩, ⟨2, 4⟩, ⟨0, 1⟩, ⟨4, 5⟩] ∧
      d.sheet.spans.map Span.rest = [⟨10, 12⟩, ⟨5, 6⟩, ⟨1, 2⟩] ∧
      (d.inscriptions.map Inscription.stretch ++ d.sheet.spans.map Span.rest).Pairwise
        Stretch.Apart ∧
      (Memory.ofRegions [⟨4096, d.sheet.bytes⟩]).readPrim .u32 4102 = .ok (3735928559 : UInt32) ∧
      (Memory.ofRegions [⟨4096, d.sheet.bytes⟩]).readPrim .i16 4098 = .ok (-2 : Int16) ∧
      d.sheet.bytes[5]? = some 170 := by
  let d : Draft := ((fresh (Array.replicate 12 170)).run? forkOfFork).get (by decide)
  have hrun : (fresh (Array.replicate 12 170)).run? forkOfFork = some d := (Option.some_get _).symm
  have hall : d.inscriptions =
      [⟨6, .u32, (3735928559 : UInt32)⟩, ⟨2, .i16, (-2 : Int16)⟩, ⟨0, .bool, true⟩,
        ⟨4, .u8, (7 : UInt8)⟩] := rfl
  obtain ⟨-, hapart, hread, hkept⟩ := apart_run? hrun
  refine ⟨d, hrun, rfl, rfl, hapart, hread 4096 ⟨6, .u32, (3735928559 : UInt32)⟩ ?_,
    hread 4096 ⟨2, .i16, (-2 : Int16)⟩ ?_, hkept 5 ?_⟩
  · rw [hall]
    exact List.mem_cons_self
  · rw [hall]
    exact List.mem_cons_of_mem _ List.mem_cons_self
  · rw [hall]
    simp [Prim.width]

end Draft

end RingCall.Wire
