import RingCall.Proofs.Call.Bookkeeping
import RingCall.Proofs.Call.Exchange
import RingCall.Proofs.Lists

/-!
# A session that has just been made

Whatever the sizes that its ends are configured with, nothing is under way in a new session
(`Session.idle_pair`).
-/

namespace RingCall

open Wire

/-- A ring that has just been made is empty. -/
theorem Config.isEmpty_of_buildRing {α σ : Type} [Inhabited α] {c : Config} {os : Shared.System σ}
    {record : Shared.Extent} {s s' : σ} {made : OwnedRing α}
    (h : c.buildRing os record s = (.ok made, s')) : made.ring.isEmpty = true := by
  rw [Config.buildRing] at h
  split at h
  · cases h
  · split at h
    · cases h
    · next hcreate =>
      cases h
      rw [OwnedRing.create] at hcreate
      split at hcreate
      · cases hcreate
      · split at hcreate
        · cases hcreate
        · split at hcreate
          · cases hcreate
          · split at hcreate
            · cases hcreate
            · cases hcreate
              rfl

/-- An endpoint serves what it was made to serve. -/
theorem Endpoint.registry_new {registry : Registry} {shards : UInt64} {e : Endpoint}
    (h : Endpoint.new registry shards = .ok e) : e.registry = registry := by
  obtain ⟨stored, -, h⟩ := Except.bind_eq_ok h
  obtain ⟨pending, -, h⟩ := Except.bind_eq_ok h
  cases h
  rfl

/-- An end at which nothing has happened yet. -/
structure Party.Fresh (p : Party) (registry : Registry) : Prop where
  poised : p.Poised
  registry_eq : p.endpoint.registry = registry
  inHand_eq : p.pool.inHand = []
  pendingCalls_eq : p.endpoint.pendingCalls = 0

namespace Party

variable {processors : Nat} {setup : Setup} {ring : Ring Record} {p : Party}

/-- What an end consists of when it has been started. -/
theorem start_eq_ok (h : start processors setup ring = .ok p) :
    ∃ e, Endpoint.new setup.registry setup.config.shards = .ok e ∧
      p = ⟨e, .new (setup.config.workerCount processors) setup.config.depth.toNat,
        setup.schedule.link ((setup.schedule.link (.opened ring .quiet .quiet)).start
          setup.config.idle), setup.schedule⟩ := by
  rw [start] at h
  obtain ⟨-, -, h⟩ := Except.bind_eq_ok h
  obtain ⟨e, hnew, h⟩ := Except.bind_eq_ok h
  exact ⟨e, hnew, (Except.ok.inj h).symm⟩

/-- Nothing has happened yet at an end that has just been started. -/
theorem fresh_start (hlawful : setup.schedule.Lawful) (hempty : ring.isEmpty = true)
    (h : start processors setup ring = .ok p) : p.Fresh setup.registry := by
  obtain ⟨e, hnew, rfl⟩ := start_eq_ok h
  obtain ⟨bits, hbits, hpending, hstored⟩ := Endpoint.new_eq_ok hnew
  have hlt : bits < 64 := by
    rw [← Nat.pow_lt_pow_iff_right Nat.one_lt_two, hbits]
    exact setup.config.shards.toNat_lt
  refine ⟨⟨hlawful, hlawful.link_start hempty _, Pool.poised_new _ _, ?_, ?_⟩,
    Endpoint.registry_new hnew, ?_, ?_⟩
  · exact hpending ▸ ShardedSlab.ready_ofBits hlt
  · exact hstored ▸ ShardedSlab.ready_ofBits hlt
  · exact List.filterMap_eq_nil_iff.2 fun w hw ↦ by rw [List.eq_of_mem_replicate hw]; rfl
  · rw [Endpoint.pendingCalls, hpending]
    exact (ShardedSlab.lists_ofBits bits).length_eq.symm

end Party

namespace Session

/-- No call is under way, and the ends serve calls by the given registries. -/
structure Idle (registry : Side → Registry) (s : Session) : Prop where
  poised : s.Poised registry
  pendingCalls_eq : ∀ side, (s.party side).endpoint.pendingCalls = 0

variable {s t : Session} {registry : Side → Registry}

namespace Idle

/-- The workers run no calls while none awaits its reply. -/
theorem inHand_eq (h : s.Idle registry) (side : Side) : (s.party side).pool.inHand = [] := by
  refine List.eq_nil_iff_forall_not_mem.2 fun call hcall ↦ ?_
  have hlive := h.poised.awaited side call hcall
  rw [ShardedSlab.get?_of_len_eq_zero (h.poised.party _).pending.sound
    (h.pendingCalls_eq side.other)] at hlive
  cases hlive

/-- A call finds a worker and a ticket. -/
theorem accepted (h : s.Idle registry) (q : Query) : q.Accepted s.scene where
  worker := Nat.lt_of_lt_of_eq (h.poised.party _).pool.size_pos
    (Pool.spare_eq_size (h.inHand_eq _)).symm
  ticket := .inl (h.pendingCalls_eq _)

/-- No call is under way if the same ones are as before. -/
theorem of_agrees (h : s.Idle registry) (ht : t.Poised registry)
    (hpending : ∀ side,
      (s.party side).endpoint.pending.Agrees (t.party side).endpoint.pending) :
    t.Idle registry :=
  ⟨ht, fun side ↦ (hpending side).len_eq.trans (h.pendingCalls_eq side)⟩

/-- No call is under way when a call was answered and its response is kept. -/
theorem keeps (h : s.Idle registry) {side : Side} {response : Option StoredReply} {e : Endpoint}
    {call : Record} (ht : s.Keeps side response e call t) : t.Idle registry :=
  h.of_agrees (h.poised.keeps ht) fun other ↦ by
    rcases Conversation.eq_or_eq_other side other with rfl | rfl
    · exact ht.here.pending
    · exact ht.there.pending

/-- Whatever is released, no call is under way afterwards. -/
theorem release (h : s.Idle registry) (side : Side) (v : ReplyView) :
    (s.release side v).Idle registry := by
  by_cases hhandle : v.handle = 0
  · rwa [Session.release, ReplyView.drop?_of_eq hhandle]
  · obtain ⟨there, hstands, hthere⟩ :=
      (h.poised.stands side).release (h.poised.party _) hhandle
    have hhere := (h.poised.party side).resumes
    refine ⟨h.poised.of_resumes hstands hhere hthere, fun other ↦ ?_⟩
    rcases Conversation.eq_or_eq_other side other with rfl | rfl
    · rw [hstands.here_eq]
      exact h.pendingCalls_eq _
    · rw [hstands.there_eq]
      exact hthere.pending.len_eq.trans (h.pendingCalls_eq _)

/-- No call is under way in a session that is again as it was. -/
theorem resumes (h : s.Idle registry) (hst : s.Resumes t) : t.Idle registry :=
  h.of_agrees (h.poised.resumes hst) fun side ↦ (hst.party side).pending

end Idle

/-- No call is under way between two ends at which nothing has happened yet. -/
theorem idle_ofParties {left right : Party} (hleft : left.Fresh (registry .left))
    (hright : right.Fresh (registry .right)) : (ofParties left right).Idle registry := by
  have hfresh : ∀ side, ((ofParties left right).party side).Fresh (registry side) := by
    rintro (- | -)
    · exact hleft
    · exact hright
  refine ⟨⟨fun side ↦ (hfresh side).poised, fun side ↦ (hfresh side).registry_eq,
    fun side call hcall ↦ ?_, rfl⟩, fun side ↦ (hfresh side).pendingCalls_eq⟩
  rw [(hfresh side).inHand_eq] at hcall
  cases hcall

/-- No call is under way in a session that has just been made. -/
theorem idle_pair {σ : Type} {os : Shared.System σ} {start : σ} {processors : Nat}
    {setup : Side → Setup} (hlawful : ∀ side, (setup side).schedule.Lawful)
    (h : pair os processors (setup .left) (setup .right) start = .ok s) :
    s.Idle fun side ↦ (setup side).registry := by
  obtain ⟨toRight, hright, h⟩ := Except.bind_eq_ok h
  obtain ⟨toLeft, hleft, h⟩ := Except.bind_eq_ok h
  obtain ⟨left, hstart, h⟩ := Except.bind_eq_ok h
  obtain ⟨right, hstart', h⟩ := Except.bind_eq_ok h
  cases h
  have hempty := Config.isEmpty_of_buildRing (Prod.ext hleft rfl)
  have hempty' := Config.isEmpty_of_buildRing (Prod.ext hright rfl)
  exact idle_ofParties (Party.fresh_start (hlawful .left) hempty hstart)
    (Party.fresh_start (hlawful .right) hempty' hstart')

end Session

end RingCall
