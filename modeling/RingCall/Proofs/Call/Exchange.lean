import RingCall.Proofs.Call.Ends
import RingCall.Proofs.Call.Scene
import RingCall.Proofs.Wire.Release

/-!
# The way of one call

What becomes of a call that one end makes while no record is under way and each worker either waits
or runs a call (`Session.Poised`). The threads of both ends take turns in any order
(`Schedule.Lawful`).

1. The caller's ticket is stored, and the call's record crosses to the peer, where a worker that
   waits takes it (`Poised.openCall`).
2. The worker runs the handler (`Poised.respond`). The handler may make calls of its own, which
   leave the session as it was (`Session.Serves`). The response is stored and kept, its reply
   crosses back and takes the ticket out again, and the worker waits for another call.
3. The caller collects the reply (`Poised.exchange`), and the request is freed
   (`Poised.exchangeValue`). The session is then as it was, but for the response
   (`Session.Keeps`).
4. The caller reads the response and releases it, and the peer frees it (`Poised.finish`).

As the calls of handlers go the same way, calls that are nested in one another are answered by
induction on how deep they are nested (`Poised.callWithin`).
-/

namespace RingCall

open Wire

/-- The response to a call, stored in memory, if there is one. -/
def Wire.Heap.reply (h : Heap) (t : Ty) : Option t.Value → Option StoredReply × Heap
  | some w => (some ⟨.ofNat (h.store t w).1.refAddress, (h.store t w).1⟩, (h.store t w).2)
  | none => (none, h)

namespace Session

variable {s t : Session} {side : Side} {here there : Party} {heap : Heap}
  {arrived : List (Nat × Record)}

/-! ### Sessions in which no record is under way -/

/-- No record is under way, the ends serve calls by the given registries, and the calls that are
being served await their replies. -/
structure Poised (registry : Side → Registry) (s : Session) : Prop where
  party : ∀ side, (s.party side).Poised
  registry_eq : ∀ side, (s.party side).endpoint.registry = registry side
  awaited : ∀ side, (s.party side).AwaitedBy (s.party side.other)
  arrived_eq : s.arrived = []

/-- A session is again as it was. -/
structure Resumes (s t : Session) : Prop where
  party : ∀ side, (s.party side).Resumes (t.party side) (s.party side).endpoint.stored
  heap_eq : t.heap = s.heap
  arrived_eq : t.arrived = []

/-- A session that is twice as it was is as it was at first. -/
theorem Resumes.trans {u : Session} (h : s.Resumes t) (h' : t.Resumes u) : s.Resumes u where
  party side := by
    have hboth := (h.party side).trans (h'.party side)
    exact ⟨hboth.poised, hboth.registry_eq, hboth.workers_eq, hboth.pending,
      (h.party side).stored.trans hboth.stored⟩
  heap_eq := h'.heap_eq.trans h.heap_eq
  arrived_eq := h'.arrived_eq

/-- A call finds the same afterwards. -/
theorem Resumes.scene_eq (h : s.Resumes t) : t.scene = s.scene := by
  rw [scene, scene, h.heap_eq]
  congr 1 <;> funext side
  · rw [Pool.spare, (h.party side).workers_eq]
    rfl
  · exact (h.party side).pending.load_eq
  · exact (h.party side).stored.load_eq

/-- A session is as it was if both ends have again what they had and the memory is the same. -/
theorem Resumes.of_stands (ht : t.Stands side here there s.heap [])
    (hhere : (s.party side).Resumes here (s.party side).endpoint.stored)
    (hthere : (s.party side.other).Resumes there (s.party side.other).endpoint.stored) :
    s.Resumes t where
  party other := by
    rcases Conversation.eq_or_eq_other side other with rfl | rfl
    · exact ht.here_eq ▸ hhere
    · exact ht.there_eq ▸ hthere
  heap_eq := ht.heap_eq
  arrived_eq := ht.arrived_eq

/-- The peer of an end has replied to a call, and keeps the response if there is one. -/
structure Keeps (s : Session) (side : Side) (response : Option StoredReply) (e : Endpoint)
    (call : Record) (t : Session) : Prop where
  here : (s.party side).Resumes (t.party side) (s.party side).endpoint.stored
  ready : e.stored.Ready
  stored : (s.party side.other).endpoint.stored.Agrees e.stored
  there : (s.party side.other).Resumes (t.party side.other) (e.conclude call response).2.stored
  arrived_eq : t.arrived = []

/-- Calls of handlers are answered, and leave a session as it was. -/
def Serves (registry : Side → Registry) (scene : Scene) (calling : Calling)
    (asks : (q : Query) → Option q.response.Value → Prop) : Prop :=
  ∀ s : Session, s.Poised registry → s.scene = scene →
    ∀ (q : Query) (answer : Option q.response.Value), asks q answer →
      ∃ t, calling s q.side q.callId q.request q.value q.response =
        some (q.outcome answer, t) ∧ s.Resumes t

namespace Poised

variable {registry : Side → Registry} {calling : Calling}
  {asks : (q : Query) → Option q.response.Value → Prop} {q : Query}
  {answer : Option q.response.Value}

/-- A session consists of its two ends and its memory while no reply has come. -/
theorem stands (h : s.Poised registry) (side : Side) :
    s.Stands side (s.party side) (s.party side.other) s.heap [] :=
  ⟨rfl, rfl, rfl, h.arrived_eq⟩

/-- A session that nothing happens to is as it was. -/
theorem refl (h : s.Poised registry) : s.Resumes s :=
  ⟨fun side ↦ (h.party side).resumes, rfl, h.arrived_eq⟩

/-- No record is under way after both ends have resumed. -/
theorem of_resumes (h : s.Poised registry) (ht : t.Stands side here there heap [])
    {stored stored' : ShardedSlab StoredReply} (hhere : (s.party side).Resumes here stored)
    (hthere : (s.party side.other).Resumes there stored') : t.Poised registry where
  party other := by
    rcases Conversation.eq_or_eq_other side other with rfl | rfl
    · exact ht.here_eq ▸ hhere.poised
    · exact ht.there_eq ▸ hthere.poised
  registry_eq other := by
    rcases Conversation.eq_or_eq_other side other with rfl | rfl
    · rw [ht.here_eq, hhere.registry_eq, h.registry_eq]
    · rw [ht.there_eq, hthere.registry_eq, h.registry_eq]
  awaited other := by
    rcases Conversation.eq_or_eq_other side other with rfl | rfl
    · rw [ht.here_eq, ht.there_eq]
      exact (h.awaited _).resumes hhere hthere
    · have hback := h.awaited side.other
      rw [Conversation.other_other] at hback ⊢
      rw [ht.here_eq, ht.there_eq]
      exact hback.resumes hthere hhere
  arrived_eq := ht.arrived_eq

/-- No record is under way in a session that is again as it was. -/
theorem resumes (h : s.Poised registry) (hst : s.Resumes t) : t.Poised registry :=
  have ht : t.Stands .left (t.party .left) (t.party .right) t.heap [] :=
    ⟨rfl, rfl, rfl, hst.arrived_eq⟩
  h.of_resumes ht (hst.party _) (hst.party _)

/-! ### The handler -/

/-- A handler comes to its end if the calls that it makes do. -/
theorem react {scene : Scene} (hserves : Serves registry scene calling asks) {response : Ty}
    {r : Reaction} {final : Option response.Value} (hyields : r.Yields asks side response final)
    (h : s.Poised registry) (hscene : s.scene = scene) :
    ∃ t, react calling side r s = some (final.map fun w ↦ ⟨response, w⟩, t) ∧ s.Resumes t := by
  induction hyields generalizing s with
  | reply w => exact ⟨s, rfl, h.refl⟩
  | panic => exact ⟨s, rfl, h.refl⟩
  | call hcall _ ih =>
    obtain ⟨t, hcalling, ht⟩ := hserves s h hscene _ _ hcall
    obtain ⟨u, hreact, hu⟩ := ih (h.resumes ht) (ht.scene_eq.trans hscene)
    refine ⟨u, ?_, ht.trans hu⟩
    rw [Session.react, hcalling]
    exact hreact

/-- The response of an end is the answer of its handler. -/
theorem respond (h : s.Poised registry) (hserves : Serves registry s.scene calling asks)
    (call : Record) (hid : call.callId = q.callId)
    (hanswer : (registry q.side.other).Answers asks q s.heap.memory call.address answer) :
    ∃ u t, s.Resumes u ∧ s.respond calling q.side.other call =
        some ((s.heap.reply q.response answer).1, t) ∧
      t.Stands q.side (u.party q.side) (u.party q.side.other)
        (s.heap.reply q.response answer).2 [] := by
  rw [Session.respond, h.registry_eq, hid]
  cases hanswer with
  | unserved hfind =>
    simp only [hfind]
    exact ⟨s, _, h.refl, rfl, (h.stands _).congr (s.report _) rfl rfl rfl h.arrived_eq⟩
  | served hfind hreact =>
    obtain ⟨u, hu, hresumes⟩ := h.react hserves hreact rfl
    have hstands := (h.resumes hresumes).stands q.side
    simp only [hfind, hu]
    cases answer with
    | none => exact ⟨u, _, hresumes, rfl,
        hstands.congr (u.report _) rfl rfl hresumes.heap_eq hstands.arrived_eq⟩
    | some w =>
      refine ⟨u, { u with heap := (u.heap.store q.response w).2 }, hresumes, ?_, ?_⟩
      · rw [← hresumes.heap_eq]
        rfl
      · refine hstands.congr { u with heap := (u.heap.store q.response w).2 } rfl rfl ?_
          hstands.arrived_eq
        rw [← hresumes.heap_eq]
        rfl

/-! ### The whole call -/

/-- A call that has been opened takes a worker and a ticket. -/
theorem scene_eq_serving {caller : Nat} {inbound : Link Record} {i : Nat} {call : Record}
    (hi : (s.party side.other).pool.workers[i]? = some .waiting)
    (ht : t.Stands side ((s.party side).opening caller)
      ((s.party side.other).serving inbound i call) s.heap arrived) :
    t.scene = s.scene.serving side := by
  have hspare : ((s.party side.other).serving inbound i call).pool.spare =
      (s.party side.other).pool.spare - 1 :=
    Nat.eq_sub_of_add_eq (Pool.spare_setWorker hi call)
  have hload : ((s.party side).opening caller).endpoint.pending.load = _ :=
    ShardedSlab.load_push _ caller
  have hne : side ≠ side.other := by cases side <;> nofun
  rw [scene, scene, Scene.serving, ht.heap_eq]
  congr 1 <;> funext other <;> rcases Conversation.eq_or_eq_other side other with rfl | rfl
  · rw [ht.here_eq, if_neg hne]
    rfl
  · rw [ht.there_eq, if_pos rfl]
    exact hspare
  · rw [ht.here_eq, if_pos rfl]
    exact hload
  · rw [ht.there_eq, if_neg hne.symm]
    rfl
  · rw [ht.here_eq]
    rfl
  · rw [ht.there_eq]
    rfl

/-- The peer takes the call, and no record is under way while its worker runs the handler. -/
theorem openCall (h : s.Poised registry) (haccepted : q.Accepted s.scene) (address : UInt64) :
    let call := Record.call q.callId ((s.party q.side).endpoint.openCall s.nextCaller).1 address
    ∃ t inbound, ∃ i : Nat, s.openCall q.side q.callId address = (s.nextCaller, call, t) ∧
      (s.party q.side.other).pool.workers[i]? = some .waiting ∧ t.Poised registry ∧
      t.Stands q.side ((s.party q.side).opening s.nextCaller)
        ((s.party q.side.other).serving inbound i call) s.heap [] := by
  intro call
  obtain ⟨t, inbound, i, hopen, hi, hthere, ht⟩ :=
    (h.stands q.side).openCall (h.party _) haccepted.worker q.callId address
  have hhere := h.party q.side
  have hready := hhere.pending.push haccepted.ticket s.nextCaller
  have hticket : ((s.party q.side).opening s.nextCaller).endpoint.pending.get? call.userData =
      some s.nextCaller :=
    (ShardedSlab.get?_push hhere.pending.sound hready.fits _).trans (if_pos rfl)
  refine ⟨t, inbound, i, hopen, hi, ⟨fun side ↦ ?_, fun side ↦ ?_, fun side ↦ ?_, ht.arrived_eq⟩,
    ht⟩ <;> rcases Conversation.eq_or_eq_other q.side side with rfl | rfl
  · rw [ht.here_eq]
    exact ⟨hhere.schedule, hhere.inbound, hhere.pool, hready, hhere.stored⟩
  · exact ht.there_eq ▸ hthere
  · rw [ht.here_eq]
    exact h.registry_eq _
  · rw [ht.there_eq]
    exact h.registry_eq _
  · rw [ht.here_eq, ht.there_eq]
    exact h.awaited _
  · have hawaited := h.awaited q.side.other
    rw [Conversation.other_other] at hawaited ⊢
    rw [ht.here_eq, ht.there_eq]
    exact (hawaited.opening hhere.pending.sound hready.fits).serving hi
      (Option.isSome_of_eq_some hticket) inbound

/-- **A call is answered.** Both ends are as they were, but for the response that is kept. -/
theorem exchange (h : s.Poised registry) (haccepted : q.Accepted s.scene)
    (hhandles : (s.scene.stored q.side.other).HasHandles)
    (hserves : Serves registry (s.scene.serving q.side) calling asks) {address : UInt64}
    (hanswer : (registry q.side.other).Answers asks q s.heap.memory address answer) :
    let response := s.heap.reply q.response answer
    ∃ e call t, s.exchange calling q.side q.callId address =
        some (.ofReply q.callId (e.conclude call response.1).1, t) ∧
      s.Keeps q.side response.1 e call t ∧ t.heap = response.2 := by
  intro response
  obtain ⟨t, inbound, i, hopen, hi, ht, hstands⟩ := h.openCall haccepted address
  let call := Record.call q.callId ((s.party q.side).endpoint.openCall s.nextCaller).1 address
  have hready := (h.party q.side).pending.push haccepted.ticket s.nextCaller
  -- the handler leaves the session as it finds it
  rw [← hstands.heap_eq] at hanswer
  rw [← scene_eq_serving hi hstands] at hserves
  obtain ⟨u, v, hresumes, hrespond, hv⟩ := ht.respond hserves call rfl hanswer
  rw [hstands.heap_eq] at hrespond hv
  have hhere := hresumes.party q.side
  have hthere := hresumes.party q.side.other
  rw [hstands.here_eq] at hhere
  rw [hstands.there_eq] at hthere
  -- the ticket is new, so the worker that took the call is the one that serves it
  have hawaited := h.awaited q.side.other
  rw [Conversation.other_other] at hawaited
  have hnew : call ∉ (s.party q.side.other).pool.inHand :=
    hawaited.not_mem (h.party q.side).pending.sound hready.fits rfl
  have hfind := Pool.findIdx?_setWorker hi hnew
  have hrunning : (u.party q.side.other).pool.workers[i]? = some (.running call false) := by
    rw [hthere.workers_eq]
    exact Pool.getElem?_setWorker_self hi
  obtain ⟨hpop, hheard⟩ := Party.Resumes.hearing (h.party q.side) hready hhere
  obtain ⟨w, inbound', hserve, hvacant, hw⟩ := Stands.serve (hstands.there_eq ▸ hfind) hrespond
    hv hhere.poised hthere.poised hrunning hpop
  obtain ⟨x, hcollect, hx⟩ := hw.collect
  refine ⟨(u.party q.side.other).endpoint, call, x, ?_, ⟨?_, hthere.poised.stored, hthere.stored,
    ?_, hx.arrived_eq⟩, hx.heap_eq⟩
  · rw [Session.exchange, hopen]
    simp only [call, hserve, hcollect, Option.bind_eq_bind, Option.bind_some]
    rfl
  · rw [hx.here_eq]
    exact hheard inbound' hvacant
  · rw [hx.there_eq]
    exact Party.Resumes.replying hhandles hi hthere response.1

/-- A call whose request is stored for it. The request is released when the reply has come. -/
theorem exchangeValue (h : s.Poised registry) (haccepted : q.Accepted s.scene)
    (hhandles : (s.scene.stored q.side.other).HasHandles)
    (hserves : Serves registry (q.enter s.scene) calling asks)
    (hanswer : (registry q.side.other).Answers asks q (q.memory s.heap) (q.address s.heap)
      answer) :
    let request := s.heap.store q.request q.value
    let response := request.2.reply q.response answer
    ∃ e call t, s.exchangeValue calling q.side q.callId q.request q.value =
        some (.ofReply q.callId (e.conclude call response.1).1, t) ∧
      s.Keeps q.side response.1 e call t ∧ t.heap = response.2.discard request.1 := by
  intro request response
  let sent : Session := { s with heap := request.2 }
  have hparty : ∀ side, sent.party side = s.party side := party_withHeap s request.2
  have hsent : sent.Poised registry := by
    refine ⟨fun side ↦ ?_, fun side ↦ ?_, fun side ↦ ?_, h.arrived_eq⟩
    · exact hparty side ▸ h.party side
    · exact hparty side ▸ h.registry_eq side
    · rw [hparty, hparty]
      exact h.awaited side
  have hscene : sent.scene = { s.scene with heap := request.2 } := by
    simp only [scene, hparty]
    rfl
  obtain ⟨e, call, t, hexchange, ht, hheap⟩ := hsent.exchange
    (by rw [hscene]; exact ⟨haccepted.worker, haccepted.ticket⟩) (by rw [hscene]; exact hhandles)
    (by rw [hscene]; exact hserves) hanswer
  refine ⟨e, call, { t with heap := t.heap.discard request.1 }, ?_, ⟨?_, ht.ready, ?_, ?_,
    ht.arrived_eq⟩, congrArg (Heap.discard · request.1) hheap⟩
  · show (Session.exchange calling sent q.side q.callId (q.address s.heap)).bind _ = _
    rw [hexchange]
    rfl
  · have hhere := ht.here
    rw [hparty] at hhere
    rwa [party_withHeap]
  · have hstored := ht.stored
    rwa [hparty] at hstored
  · have hthere := ht.there
    rw [hparty] at hthere
    rwa [party_withHeap]

/-- No record is under way when the reply has been collected. -/
theorem keeps {side : Side} {e : Endpoint} {call : Record} {response : Option StoredReply}
    (h : s.Poised registry) (ht : s.Keeps side response e call t) : t.Poised registry :=
  h.of_resumes ⟨rfl, rfl, rfl, ht.arrived_eq⟩ ht.here ht.there

/-! ### The response -/

/-- The end of a call that was answered: its caller is told the outcome, and the session is as it
was. The response was stored in the heap `stored`, and can still be read. -/
theorem finish (h : s.Poised registry) (hhandles : (s.scene.stored q.side.other).HasHandles)
    {stored : Heap} {e : Endpoint} {call : Record}
    (ht : s.Keeps q.side (stored.reply q.response answer).1 e call t)
    (hempty : answer = none → t.heap = s.heap)
    (hfull : ∀ w, answer = some w →
      q.response.readAt t.heap.memory
          (UInt64.ofNat (stored.store q.response w).1.refAddress).toNat = .ok w ∧
        t.heap.discard (stored.store q.response w).1 = s.heap) :
    ∃ u, t.finish q.side (.ofReply q.callId
        (e.conclude call (stored.reply q.response answer).1).1) q.response =
      some (q.outcome answer, u) ∧ s.Resumes u := by
  cases answer with
  | none =>
    have hthere := ht.there
    exact ⟨t, rfl, .of_stands ⟨rfl, rfl, hempty rfl, ht.arrived_eq⟩ ht.here
      ⟨hthere.poised, hthere.registry_eq, hthere.workers_eq, hthere.pending,
        ht.stored.trans hthere.stored⟩⟩
  | some w =>
    obtain ⟨hread, hfreed⟩ := hfull w rfl
    let placed := (stored.store q.response w).1
    let reply : StoredReply := ⟨.ofNat placed.refAddress, placed⟩
    let v : ReplyView := ⟨q.callId, .ofNat placed.refAddress, (e.stored.push reply).1⟩
    have hpushed := ht.ready.push (ht.stored.load_eq ▸ hhandles) reply
    have hhandle : v.handle ≠ 0 := ShardedSlab.fst_push_ne_zero ht.ready.sound hpushed.fits
    obtain ⟨hpop, hagrees⟩ : ((t.party q.side.other).endpoint.stored.pop v.handle).1 = some reply ∧
        e.stored.Agrees ((t.party q.side.other).endpoint.stored.pop v.handle).2 :=
      ShardedSlab.Agrees.pop_push ht.ready.sound hpushed.fits ht.there.stored
        ht.there.poised.stored.sound
    obtain ⟨there, hu, hthere⟩ :=
      ((h.keeps ht).stands q.side).release ht.there.poised hhandle
    rw [hpop, Option.elim_some, hfreed] at hu
    have hback := ht.there.trans hthere
    refine ⟨t.release q.side v, ?_, .of_stands hu ht.here ⟨hback.poised, hback.registry_eq,
      hback.workers_eq, hback.pending, (ht.stored.trans hagrees).trans hback.stored⟩⟩
    have hvalue : t.read v q.response = some w := by rw [read, hread]; rfl
    have hnonempty : v.isEmpty = false := beq_eq_false_iff_ne.2 hhandle
    show t.finish q.side v q.response = _
    simp only [Session.finish, hnonempty, hvalue, Bool.false_eq_true, if_false, Option.map_some]
    rfl

/-- A call is answered, and its response can be read. -/
theorem exists_answer (h : s.Poised registry) (haccepted : q.Accepted s.scene)
    (hfits : q.Fits answer s.scene) (hserves : Serves registry (q.enter s.scene) calling asks)
    (hanswer : (registry q.side.other).Answers asks q (q.memory s.heap) (q.address s.heap)
      answer) :
    ∃ v t, s.exchangeValue calling q.side q.callId q.request q.value = some (v, t) ∧
      (∃ response e call, s.Keeps q.side response e call t) ∧
      ∃ u, t.finish q.side v q.response = some (q.outcome answer, u) ∧ s.Resumes u := by
  obtain ⟨e, call, t, hexchange, ht, hheap⟩ :=
    h.exchangeValue haccepted hfits.handles hserves hanswer
  refine ⟨_, t, hexchange, ⟨_, e, call, ht⟩, h.finish hfits.handles ht ?_ fun w hw ↦ ⟨?_, ?_⟩⟩
  · rintro rfl
    exact hheap.trans (Heap.discard_store _ _ _)
  · subst hw
    rw [hheap]
    exact Heap.readAt_store_of_discard (hfits.response w rfl) (hfits.response_top w rfl)
  · subst hw
    rw [hheap]
    exact Heap.discard_discard_store _ _ _ _ _

/-- **Nested calls are answered.** A call comes to what its handler comes to, when the calls of the
handler come to what theirs come to. -/
theorem callWithin (registry : Side → Registry) (n : Nat) (scene : Scene) :
    Serves registry scene (Session.callWithin n) (Query.ComesWithin registry n scene) := by
  induction n generalizing scene with
  | zero => exact fun _ _ _ _ _ hcomes ↦ hcomes.elim
  | succ n ih =>
    rintro s h rfl q answer ⟨haccepted, hfits, hanswer⟩
    obtain ⟨v, t, hexchange, -, u, hfinish, hu⟩ := h.exists_answer haccepted hfits (ih _) hanswer
    refine ⟨u, ?_, hu⟩
    rw [Session.callWithin]
    simp only [hexchange, hfinish, Option.bind_eq_bind, Option.bind_some]

end Poised

end Session

end RingCall
