import Mathlib.Algebra.Ring.Nat
import RingCall.Proofs.Text.Numeral
import RingCall.Ring.Config

/-!
# Sizes from the environment

Each setting that the environment may override is overridden with the number its text spells, unless
that is zero or does not fit into a word (`Config.override_eq_some_iff`), and no setting has a say
in another one's size (`Config.size_ofEnvironment`). No adjustment that is made afterwards leaves a
configuration without workers or without room for a queued job (`Config.Staffed.adjustAll`). The
capacity and the number of shards may end up at anything, which is why they are looked at before
something is built, and the number of shards is accepted just if slabs with that many shards can be
made (`Config.check_eq_ok_iff`). `Config.settings_ofEnvironment` has all of this together.
-/

namespace RingCall

/-! ### Numbers of shards -/

namespace ShardedSlab

variable {α : Type} {n : Nat}

/-- Shard counts are powers of two. -/
theorem isShardCount_iff : isShardCount n = true ↔ ∃ bits, n = 2 ^ bits := by
  rw [isShardCount, beq_iff_eq, Nat.one_shiftLeft]
  constructor
  · exact fun h ↦ ⟨_, h⟩
  · rintro ⟨bits, rfl⟩
    rw [Nat.log2_two_pow]

/-- A slab with as many shards as asked for. -/
theorem exists_new_of_isShardCount (h : isShardCount n = true) :
    ∃ slab : ShardedSlab α, new n = .ok slab ∧ slab.shardCount = n :=
  ⟨ofBits n.log2, if_pos h, (beq_iff_eq.1 h).symm⟩

end ShardedSlab

namespace Config

variable {c : Config}

/-! ### Overriding -/

/-- A setting is overridden with the number that it spells, if this is not zero and fits into a
word. -/
def Overrides (text : Option String) (n : Nat) : Prop :=
  ∃ s, text = some s ∧ Text.Spells s.toList n ∧ 1 ≤ n ∧ n ≤ 2 ^ 64 - 1

/-- A setting takes effect if its text is a numeral within the word size. -/
theorem override_eq_some_iff {text : Option String} {w : UInt64} :
    override text = some w ↔ Overrides text w.toNat := by
  have hpos : w ≠ 0 ↔ 1 ≤ w.toNat := by
    rw [Ne, ← UInt64.toNat_inj, Nat.one_le_iff_ne_zero]
    rfl
  rw [override, Option.filter_eq_some_iff, Option.bind_eq_some_iff, decide_eq_true_iff, hpos]
  constructor
  · rintro ⟨⟨s, hs, hw⟩, hone⟩
    exact ⟨s, hs, Text.word?_eq_some_iff.1 hw, hone, Nat.le_sub_one_of_lt w.toNat_lt⟩
  · rintro ⟨s, hs, hw, hone, -⟩
    exact ⟨⟨s, hs, Text.word?_eq_some_iff.2 hw⟩, hone⟩

/-- The same as a number. -/
theorem map_override_eq_some_iff {text : Option String} {n : Nat} :
    (override text).map UInt64.toNat = some n ↔ Overrides text n := by
  rw [Option.map_eq_some_iff]
  constructor
  · rintro ⟨w, hw, rfl⟩
    exact override_eq_some_iff.1 hw
  · intro h
    obtain ⟨-, -, -, -, hmax⟩ := id h
    have hword : (UInt64.ofNat n).toNat = n :=
      UInt64.toNat_ofNat_of_lt' (show n < 2 ^ 64 from Nat.lt_of_le_sub_one (by decide) hmax)
    exact ⟨UInt64.ofNat n, override_eq_some_iff.2 (hword.symm ▸ h), hword⟩

/-- A setting has no effect if its text is no such numeral. -/
theorem override_eq_none_iff {text : Option String} :
    override text = none ↔ ¬ ∃ n, Overrides text n := by
  constructor
  · rintro hnone ⟨n, hn⟩
    have hsome := map_override_eq_some_iff.2 hn
    rw [hnone] at hsome
    cases hsome
  · intro hnever
    rw [Option.eq_none_iff_forall_ne_some]
    exact fun w hw ↦ hnever ⟨_, override_eq_some_iff.1 hw⟩

/-- The size that a setting is about, on a machine with the given number of processors. -/
def size (c : Config) (processors : Nat) : Setting → Nat
  | .capacity => c.capacity.toNat
  | .workers => c.workerCount processors
  | .shards => c.shards.toNat

/-- **Each setting decides on its own size**: it is the number that the setting is overridden with,
if any, and else the default. -/
theorem size_ofEnvironment (env : Setting → Option String) (processors : Nat) (s : Setting) :
    (ofEnvironment env).size processors s =
      ((override (env s)).map UInt64.toNat).getD (({} : Config).size processors s) := by
  cases s with
  | capacity => exact (Option.getD_map UInt64.toNat 1024 (override (env .capacity))).symm
  | shards => exact (Option.getD_map UInt64.toNat 8 (override (env .shards))).symm
  | workers =>
    rw [size, ofEnvironment, workerCount]
    cases override (env .workers) <;> rfl

/-! ### Adjusting -/

/-- What can be adjusted. -/
inductive Adjustment where
  | capacity (n : UInt64)
  | workers (n : UInt64)
  | depth (n : UInt64)
  | shards (n : UInt64)
  | idle (p : IdlePolicy)
  | name (s : String)

/-- Makes an adjustment. -/
def adjust (c : Config) : Adjustment → Config
  | .capacity n => c.withCapacity n
  | .workers n => c.withWorkers n
  | .depth n => c.withDepth n
  | .shards n => c.withShards n
  | .idle p => c.withIdle p
  | .name s => c.withName s

/-- Makes adjustments one after another. -/
def adjustAll (c : Config) (adjustments : List Adjustment) : Config := adjustments.foldl adjust c

/-- **Somebody is there to work**, and a job may queue. -/
structure Staffed (c : Config) : Prop where
  workers : ∀ n, c.workers = some n → 1 ≤ n
  depth : 1 ≤ c.depth

/-- There are workers in any environment. -/
theorem staffed_ofEnvironment (env : Setting → Option String) : (ofEnvironment env).Staffed where
  workers n hn := by
    rw [ofEnvironment, Option.or_none] at hn
    obtain ⟨s, -, -, hone, -⟩ := override_eq_some_iff.1 hn
    exact UInt64.le_iff_toNat_le.2 hone
  depth := show 1 ≤ ({} : Config).depth by decide

/-- A setter that takes the greater of its number and 1 sets at least 1. -/
theorem one_le_max_one (n : UInt64) : 1 ≤ max n 1 := by
  show 1 ≤ if n ≤ 1 then 1 else n
  split
  · exact UInt64.le_refl 1
  · next hn => exact UInt64.le_of_lt (UInt64.not_le.1 hn)

/-- There are workers after each setter. -/
theorem Staffed.adjust (hc : c.Staffed) (a : Adjustment) : (c.adjust a).Staffed := by
  cases a with
  | workers n =>
    refine ⟨fun m hm ↦ ?_, hc.depth⟩
    obtain rfl := Option.some.inj hm
    exact one_le_max_one n
  | depth n => exact ⟨hc.workers, one_le_max_one n⟩
  | capacity | shards | idle | name => exact ⟨hc.workers, hc.depth⟩

/-- There are workers after any setters. -/
theorem Staffed.adjustAll (hc : c.Staffed) (adjustments : List Adjustment) :
    (c.adjustAll adjustments).Staffed := by
  induction adjustments generalizing c with
  | nil => exact hc
  | cons a adjustments ih => exact ih (hc.adjust a)

/-- At least one worker is started, on any number of processors. -/
theorem Staffed.workerCount_pos (hc : c.Staffed) (processors : Nat) :
    1 ≤ c.workerCount processors := by
  rw [workerCount]
  split
  · next n hn => exact UInt64.le_iff_toNat_le.1 (hc.workers n hn)
  · exact Nat.le_max_right _ _

/-! ### Checking -/

/-- A configuration is accepted if its capacity is positive and its shards are a power of two. -/
theorem check_eq_ok_iff :
    c.check = .ok () ↔ 1 ≤ c.capacity ∧ ShardedSlab.isShardCount c.shards.toNat = true := by
  rw [check]
  split
  · next hzero => exact iff_of_false nofun fun h ↦ absurd (hzero ▸ h.1) (by decide)
  · next hcap =>
    have hone : 1 ≤ c.capacity := UInt64.pos_iff_ne_zero.2 hcap
    split
    · next hcount => exact iff_of_true rfl ⟨hone, hcount⟩
    · next hcount => exact iff_of_false nofun fun h ↦ hcount h.2

/-- **What the environment and its adjustments amount to.** A setting is overridden with the number
that its text spells, and by default otherwise; the settings that the environment has no say in are
the default ones. However the sizes are adjusted afterwards, there is a worker and room for a queued
job. The check succeeds just if there is room for a record and the number of shards is a power of
two, and slabs with so many shards can then be made. -/
theorem settings_ofEnvironment {α : Type} (env : Setting → Option String) (processors : Nat)
    (adjustments : List Adjustment) :
    (∀ s, (∀ n, Overrides (env s) n → (ofEnvironment env).size processors s = n) ∧
      ((¬ ∃ n, Overrides (env s) n) →
        (ofEnvironment env).size processors s = ({} : Config).size processors s)) ∧
    { ofEnvironment env with capacity := 1024, workers := none, shards := 8 } = ({} : Config) ∧
    let c := (ofEnvironment env).adjustAll adjustments
    1 ≤ c.workerCount processors ∧ 1 ≤ c.depth ∧
      (c.check = .ok () ↔ 1 ≤ c.capacity ∧ ∃ bits, c.shards.toNat = 2 ^ bits) ∧
      (c.check = .ok () → ∃ slab : ShardedSlab α,
        ShardedSlab.new c.shards.toNat = .ok slab ∧ slab.shardCount = c.shards.toNat) := by
  have hstaffed := (staffed_ofEnvironment env).adjustAll adjustments
  refine ⟨fun s ↦ ⟨fun n hn ↦ ?_, fun hnone ↦ ?_⟩, rfl, hstaffed.workerCount_pos processors,
    hstaffed.depth, ?_, fun hcheck ↦ ?_⟩
  · rw [size_ofEnvironment, map_override_eq_some_iff.2 hn]
    rfl
  · rw [size_ofEnvironment, override_eq_none_iff.2 hnone]
    rfl
  · rw [check_eq_ok_iff, ShardedSlab.isShardCount_iff]
  · exact ShardedSlab.exists_new_of_isShardCount (check_eq_ok_iff.1 hcheck).2

/-- A capacity between blanks, no workers, and nothing about shards. -/
def fewSettings : Setting → Option String
  | .capacity => some "\u2003+0016\n"
  | .workers => some "0"
  | .shards => none

/-- Some settings are taken from the environment, and some are set afterwards. -/
theorem settings_ofEnvironment_fewSettings :
    (ofEnvironment fewSettings).size 4 .capacity = 16 ∧
    (ofEnvironment fewSettings).size 4 .workers = 4 ∧
      (ofEnvironment fewSettings).size 4 .shards = 8 ∧
      let c := (ofEnvironment fewSettings).adjustAll [.workers 0, .depth 0, .shards 4]
      1 ≤ c.workerCount 4 ∧ 1 ≤ c.depth ∧ c.check = .ok () ∧
        ∃ slab : ShardedSlab Nat, ShardedSlab.new 4 = .ok slab ∧ slab.shardCount = 4 := by
  obtain ⟨hsize, -, hworkers, hdepth, hcheck, hnew⟩ :=
    settings_ofEnvironment fewSettings 4 [.workers 0, .depth 0, .shards 4]
  have hspells : Text.Spells ['\u2003', '+', '0', '0', '1', '6', '\n'] 16 :=
    ⟨['\u2003'], ['+'], ['0', '0', '1', '6'], ['\n'], rfl, List.forall_mem_singleton.2 rfl,
      List.forall_mem_singleton.2 rfl, .inr rfl, List.cons_ne_nil _ _, List.all_eq_true.1 rfl, rfl⟩
  have hok := hcheck.2 ⟨by decide, 2, by decide⟩
  refine ⟨(hsize .capacity).1 16 ⟨_, rfl, hspells, by decide, by decide⟩, (hsize .workers).2 ?_,
    (hsize .shards).2 ?_, hworkers, hdepth, hok, hnew hok⟩
  · rw [← override_eq_none_iff]
    decide
  · rintro ⟨n, s, hs, -⟩
    cases hs

end Config

end RingCall
