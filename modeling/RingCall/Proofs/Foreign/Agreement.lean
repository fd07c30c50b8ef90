import RingCall.Foreign.Attach
import RingCall.Proofs.Call.Answers

/-!
# Calls of another runtime

A peer of another runtime has a way of calling of its own: it stores the request, tells an empty
reply from a full one, and reads and releases the response by itself. Still its calls come to what
calls of an end come to (`Connection.call_eq`). So a session with such a peer goes on as any other
session does, whatever is called before, and either way of calling tells the same and leaves the
same behind (`Connection.agree_dealAll`).

This is about peers whose responses are words, which is all that another runtime can read. A handler
for it must reply with a word, or panic, and may call back with words before that
(`Handler.InWords`). The calls back are answered as well, since nobody else calls the peer
(`Connection.exists_comesTo`).
-/

namespace RingCall

open Wire

/-! ### Words -/

namespace Wire.Heap

/-- A word takes eight bytes. -/
theorem top_store_word (h : Heap) (v : UInt64) : (h.store .word v).2.top ≤ h.top + 8 := by
  have hregions : (h.store .word v).2.regions =
      ⟨h.top, (Prim.u64.toBytes v).toArray⟩ :: h.regions := rfl
  rw [top, hregions]
  refine List.foldl_max_le Region.stop (Nat.le_add_right_of_le ?_) fun r hr ↦ ?_
  · exact (List.le_foldl_max Region.stop h.regions floor).1
  · have hsize : (Prim.u64.toBytes v).length = 8 := Prim.length_toBytes _ _
    rcases List.mem_cons.1 hr with rfl | hr
    · exact Nat.add_le_add_left hsize.le h.top
    · exact Nat.le_add_right_of_le (stop_le_top hr)

end Wire.Heap

/-- A call with a word for a word. -/
def Query.ofWord (side : Side) (callId : UInt32) (v : UInt64) :
    Query := ⟨side, callId, .word, v, .word⟩

/-- There is memory for a number of words, and a handle for a response of an end. -/
def Scene.HasRoom (scene : Scene) (words : Nat) (side : Side) : Prop :=
  scene.heap.top + 8 * words ≤ 2 ^ 64 ∧ (scene.stored side).HasHandles

namespace Scene.HasRoom

variable {scene : Scene} {words : Nat} {side : Side}

/-- A call with a word for a word takes room for two. -/
theorem fits (side : Side) (h : scene.HasRoom 2 side.other) (callId : UInt32) (v : UInt64)
    (answer : Option UInt64) : (Query.ofWord side callId v).Fits answer scene := by
  obtain ⟨hmemory, hhandles⟩ := h
  have hrequest : (scene.heap.store .word v).2.top ≤ scene.heap.top + 8 :=
    scene.heap.top_store_word v
  refine ⟨trivial, Nat.le_trans hrequest (by omega), fun _ _ ↦ trivial, fun w _ ↦ ?_, hhandles⟩
  have hresponse : ((scene.heap.store .word v).2.store .word w).2.top ≤
      (scene.heap.store .word v).2.top + 8 :=
    (scene.heap.store .word v).2.top_store_word w
  exact Nat.le_trans hresponse (by omega)

/-- The request of a call takes up the room of a word. -/
theorem enter (h : scene.HasRoom (words + 1) side) (other : Side) (callId : UInt32) (v : UInt64) :
    ((Query.ofWord other callId v).enter scene).HasRoom words side := by
  have hrequest : (scene.heap.store .word v).2.top ≤ scene.heap.top + 8 :=
    scene.heap.top_store_word v
  have hmemory := h.1
  refine ⟨?_, h.2⟩
  show (scene.heap.store .word v).2.top + 8 * words ≤ 2 ^ 64
  omega

end Scene.HasRoom

/-! ### Handlers of words -/

/-- A reaction in words: it ends with a word or in a panic, and before that it calls the peer with
words for words. -/
inductive Reaction.InWords : Reaction → Prop where
  | reply (v : UInt64) : InWords (.reply .word v)
  | panic : InWords .panic
  | call {callId : UInt32} {v : UInt64} {resume : Except Error Ty.word.Value → Reaction}
      (hresume : ∀ told, InWords (resume told)) : InWords (.call callId .word v .word resume)

/-- A reaction in words comes to its end if all calls with words are answered. -/
theorem Reaction.InWords.exists_yields {asks : (q : Query) → Option q.response.Value → Prop}
    {side : Side} (hasks : ∀ callId v, ∃ told : Option UInt64,
      asks (Query.ofWord side callId v) told) {r : Reaction} (h : r.InWords) :
    ∃ answer : Option UInt64, r.Yields asks side .word answer := by
  induction h with
  | reply v => exact ⟨some v, .reply (t := .word) v⟩
  | panic => exact ⟨none, .panic⟩
  | @call callId v resume _ ih =>
    obtain ⟨told, htold⟩ := hasks callId v
    obtain ⟨answer, hanswer⟩ := ih ((Query.ofWord side callId v).outcome told)
    exact ⟨answer, .call htold hanswer⟩

namespace Handler

variable {h : Handler}

/-- A handler calls nobody, and replies with a word, or panics, as the word behind the address of
the request decides. -/
def RepliesByWord (h : Handler) : Prop :=
  ∃ f : UInt64 → Option UInt64, ∀ (m : Memory) (address v : UInt64),
    Ty.word.readAt m address.toNat = .ok v → h.react m address = .ofAnswer .word (f v)

/-- A handler of words for words, which may call back. -/
def InWords (h : Handler) : Prop :=
  ∀ (m : Memory) (address v : UInt64),
    Ty.word.readAt m address.toNat = .ok v → (h.react m address).InWords

/-- A function of words replies with words. -/
theorem repliesByWord_evaluating (f : UInt64 → Option UInt64) :
    (evaluating .word .word f).RepliesByWord :=
  ⟨f, fun _ _ _ hread ↦ react_evaluating hread⟩

/-- A handler that calls nobody is one of words for words. -/
theorem RepliesByWord.inWords (hh : h.RepliesByWord) : h.InWords := by
  obtain ⟨f, hf⟩ := hh
  intro m address v hread
  rw [hf m address v hread]
  cases f v with
  | none => exact .panic
  | some w => exact .reply w

/-- A handler that calls nobody comes to its end, whatever calls are answered. -/
theorem RepliesByWord.exists_yields (hh : h.RepliesByWord)
    (asks : (q : Query) → Option q.response.Value → Prop) (side : Side) {m : Memory}
    {address v : UInt64} (hread : Ty.word.readAt m address.toNat = .ok v) :
    ∃ answer : Option UInt64, (h.react m address).Yields asks side .word answer := by
  obtain ⟨f, hf⟩ := hh
  rw [hf m address v hread]
  exact ⟨f v, Reaction.yields_ofAnswer (t := .word) (f v)⟩

end Handler

namespace Registration

/-- All handlers that are registered have a property. -/
def All (P : Handler → Prop) : Registration → Prop
  | handler _ h => P h
  | fallback h => ∀ callId, P (h callId)

/-- Whatever is called with a word, there is an answer if all handlers come to their ends. -/
theorem exists_answers {asks : (q : Query) → Option q.response.Value → Prop}
    {rs : List Registration} {side : Side} {m : Memory} {address : UInt64}
    (hrs : ∀ r ∈ rs, r.All fun h ↦ ∃ answer : Option UInt64,
      (h.react m address).Yields asks side.other .word answer) (callId : UInt32) (v : UInt64) :
    ∃ answer, Registration.Answers asks rs (.ofWord side callId v) m address answer := by
  cases hhandler : lastHandler? rs callId with
  | some h =>
    -- the last registration for the id is one of those with the property
    obtain ⟨r, hr, hfor⟩ := List.exists_of_findSome?_eq_some hhandler
    have hends := hrs r (List.mem_reverse.1 hr)
    cases r with
    | handler i g =>
      obtain ⟨-, hg⟩ := Option.ite_none_right_eq_some.1 hfor
      obtain rfl := Option.some.inj hg
      obtain ⟨answer, hanswer⟩ := hends
      exact ⟨answer, .raw hhandler hanswer⟩
    | fallback g => cases hfor
  | none =>
    cases hfallback : lastFallback? rs with
    | none => exact ⟨none, .nobody hhandler hfallback⟩
    | some g =>
      obtain ⟨r, hr, hfor⟩ := List.exists_of_findSome?_eq_some hfallback
      have hends := hrs r (List.mem_reverse.1 hr)
      cases r with
      | handler i h => cases hfor
      | fallback g' =>
        obtain rfl := Option.some.inj hfor
        obtain ⟨answer, hanswer⟩ := hends callId
        exact ⟨answer, .fallback hhandler hfallback hanswer⟩

/-- A property of handlers can be weakened. -/
theorem All.mono {P Q : Handler → Prop} (hPQ : ∀ h, P h → Q h) {r : Registration} (h : r.All P) :
    r.All Q := by
  cases r with
  | handler i g => exact hPQ g h
  | fallback g => exact fun callId ↦ hPQ _ (h callId)

end Registration

namespace Foreign

/-- The status of what a call is told. -/
def Status.ofResult {α : Type} : Except Error α → Status
  | .ok _ => success
  | .error e => ofError e

/-- A status and a place for the response say what a call is told. -/
theorem Status.ofResult_outcome (side : Side) (callId : UInt32) (v before : UInt64)
    (answer : Option UInt64) :
    let told := (Query.ofWord side callId v).outcome answer
    (∀ w : UInt64, ofResult told = success ∧ answer.getD before = w ↔ told = .ok w) ∧
      (ofResult told = unknownCall ↔ told = .error (.unknownCall callId)) ∧
      (ofResult told ≠ success → answer.getD before = before) := by
  cases answer with
  | none => exact ⟨fun w ↦ ⟨nofun, nofun⟩, ⟨fun _ ↦ rfl, fun _ ↦ rfl⟩, fun _ ↦ rfl⟩
  | some w =>
    exact ⟨fun w' ↦ ⟨fun h ↦ congrArg Except.ok h.2, fun h ↦ ⟨rfl, Except.ok.inj h⟩⟩,
      ⟨nofun, nofun⟩, fun h ↦ (h rfl).elim⟩

/-- The registrations of a peer with at most one handler. -/
def registrations (handler : Option ForeignHandler) : List Registration :=
  (registry handler).fallback.toList.map .fallback

/-- At most one handler is registered by a peer, and as a fallback. -/
theorem registry_eq_ofList (handler : Option ForeignHandler) :
    registry handler = .ofList (registrations handler) := by
  cases handler <;> rfl

/-- What the two ends of a session serve, the right one of which is another runtime. -/
def serving (served : List Registration) (handler : Option ForeignHandler) :
    Side → List Registration
  | .left => served
  | .right => registrations handler

/-- There is room for a call of the peer, and for calls back if there are handlers that make them.
-/
def HasRoomFor (served : List Registration) (scene : Scene) : Prop :=
  scene.HasRoom 2 .left ∧ ((∀ r ∈ served, r.All Handler.RepliesByWord) ∨ scene.HasRoom 3 .right)

/-- What is done in a session with another runtime while no call is under way. -/
inductive Dealing where
  /-- What any end can do. -/
  | native (d : Deed)
  /-- A call of the other runtime, with or without a request and a place for the response. -/
  | foreign (callId : UInt32) (request out : Option UInt64)

namespace Connection

variable {c c' : Connection} {served : List Registration} {handler : Option ForeignHandler}

/-- The reply to a call of the peer. -/
def replyTo (c : Connection) (callId : UInt32) : Option UInt64 → Option (ReplyView × Session)
  | some v => c.session.callRaw .right callId .word v
  | none => Session.exchange (Session.callWithin c.session.depth) c.session .right callId 0

/-- **Either way of calling ends alike.** The peer is told by a status what an end is told, and the
place for the response holds the response of a call that succeeds, and else what it held. -/
theorem call_eq (hattached : c.isAttached = true) (callId : UInt32) (request : Option UInt64)
    (before : UInt64) :
    c.call callId request (some before) = (c.replyTo callId request).bind fun (view, s) ↦
      (s.finish .right view .word).map fun (told, s) ↦
        (.ofResult told, some (told.toOption.getD before), { c with session := s }) := by
  have hcall : c.call callId request (some before) =
      (c.replyTo callId request).bind fun (view, s) ↦
        if view.isEmpty then some (.unknownCall, some before, { c with session := s })
        else (s.read view .word).bind fun answer ↦
          some (.success, some answer, { c with session := s.release .right view }) := by
    rw [call, hattached]
    cases request <;> rfl
  rw [hcall]
  refine Option.bind_congr fun (view, s) _ ↦ ?_
  simp only [Session.finish]
  cases view.isEmpty with
  | true => rfl
  | false => cases s.read view .word <;> rfl

/-- What a call comes to when its reply is there and the end of the call is known. -/
theorem call_of_replyTo (hattached : c.isAttached = true) {callId : UInt32}
    {request : Option UInt64} {view : ReplyView} {s s' : Session} {told : Except Error UInt64}
    (before : UInt64) (hreply : c.replyTo callId request = some (view, s))
    (hfinish : s.finish .right view .word = some (told, s')) :
    c.call callId request (some before) =
      some (.ofResult told, some (told.toOption.getD before), { c with session := s' }) := by
  have hcall := call_eq hattached callId request before
  rw [hreply, Option.bind_some] at hcall
  exact hcall.trans (congrArg (Option.map _) hfinish)

/-- The peer has attached, and no call is under way. -/
structure Settled (served : List Registration) (handler : Option ForeignHandler) (c : Connection) :
    Prop where
  isAttached : c.isAttached = true
  idle : c.session.Idle fun side ↦ .ofList (serving served handler side)

/-- No call is under way when a peer has just attached. -/
theorem settled_connect {σ : Type} {os : Shared.System σ} {s : σ} {processors : Nat}
    {left : Setup} {peer : Peer} (hleft : left.schedule.Lawful) (hpeer : peer.schedule.Lawful)
    (hserved : left.registry = .ofList served) (h : connect os processors left peer s = .ok c)
    (hattached : c.isAttached = true) : c.Settled served peer.handler := by
  obtain ⟨outbound, hout, h⟩ := Except.bind_eq_ok h
  obtain ⟨inbound, hin, h⟩ := Except.bind_eq_ok h
  obtain ⟨l, hstart, h⟩ := Except.bind_eq_ok h
  cases hright : peer.start processors outbound.ring with
  | error report =>
    rw [hright] at h
    cases h
    cases hattached
  | ok r =>
    rw [hright] at h
    cases h
    have hstart' : Party.start processors
        ⟨peer.config, registry peer.handler, peer.schedule⟩ outbound.ring = .ok r := by
      rw [Peer.start] at hright
      split at hright
      · next hstart =>
        cases hright
        exact hstart
      · cases hright
    have hl := Party.fresh_start hleft (Config.isEmpty_of_buildRing (Prod.ext hin rfl)) hstart
    have hr := Party.fresh_start hpeer (Config.isEmpty_of_buildRing (Prod.ext hout rfl)) hstart'
    exact ⟨rfl, Session.idle_ofParties (hserved ▸ hl) (registry_eq_ofList peer.handler ▸ hr)⟩

/-! ### One call -/

/-- A call that is answered tells the peer what it would tell an end, and leaves behind what that
call would leave behind. -/
theorem Settled.call (h : c.Settled served handler) {callId : UInt32} {v : UInt64}
    (hroom : c.session.scene.HasRoom 2 .left) {answer : Option UInt64}
    (hanswer : (Query.ofWord .right callId v).AnsweredBy (serving served handler) c.session answer)
    (before : UInt64) :
    ∃ c', c.call callId (some v) (some before) =
        some (.ofResult ((Query.ofWord .right callId v).outcome answer),
          some (answer.getD before), c') ∧
      c'.Settled served handler ∧ c.session.Resumes c'.session := by
  have hfits := hroom.fits .right callId v answer
  obtain ⟨view, s, hreply, -, t, hfinish, hresumes⟩ :=
    h.idle.callRaw (hanswer.registry hfits.readAt) hfits
  have hcall : c.replyTo callId (some v) = some (view, s) := hreply
  refine ⟨{ c with session := t }, (call_of_replyTo h.isAttached before hcall hfinish).trans ?_,
    ⟨h.isAttached, h.idle.resumes hresumes⟩, hresumes⟩
  cases answer <;> rfl

/-- What a call without a request is answered. -/
def AnsweredMissing (served : List Registration) (handler : Option ForeignHandler) (s : Session)
    (callId : UInt32) (answer : Option UInt64) : Prop :=
  (Registry.ofList served).Answers
    (fun nested told ↦ nested.ComesTo (fun side ↦ .ofList (serving served handler side))
      (s.scene.serving .right) told)
    (.ofWord .right callId 0) s.heap.memory 0 answer

/-- A call without a request is answered as well, if its handler can do without. -/
theorem Settled.call_of_missing (h : c.Settled served handler) {callId : UInt32}
    (hroom : c.session.scene.HasRoom 2 .left) {answer : Option UInt64}
    (hanswer : AnsweredMissing served handler c.session callId answer) (before : UInt64) :
    ∃ status out c', c.call callId none (some before) = some (status, out, c') ∧
      c'.Settled served handler := by
  obtain ⟨hmemory, hhandles⟩ := hroom
  obtain ⟨e, record, s, hexchange, hkeeps, hheap⟩ := h.idle.poised.exchange
    (h.idle.accepted (.ofWord .right callId 0)) hhandles
    (Session.Poised.callWithin _ c.session.depth _)
    (Registry.Answers.within hanswer (Nat.le_succ_of_le (c.session.spare_serving_le .right)))
  obtain ⟨t, hfinish, hresumes⟩ := h.idle.poised.finish (q := .ofWord .right callId 0) hhandles
    hkeeps (by rintro rfl; exact hheap) fun w hw ↦ by
      subst hw
      have htop : (c.session.heap.store .word w).2.top ≤ 2 ^ 64 :=
        Nat.le_trans (Heap.top_store_word _ w) (Nat.le_trans (Nat.le_add_right _ 8) hmemory)
      rw [hheap]
      exact ⟨Ty.readAt_store trivial htop, Heap.discard_store _ _ _⟩
  exact ⟨_, _, _, call_of_replyTo h.isAttached before hexchange hfinish, h.isAttached,
    h.idle.resumes hresumes⟩

/-! ### One thing after the other -/

/-- There is an answer to what is called, and room for it. -/
def Allowed (served : List Registration) (handler : Option ForeignHandler) (c : Connection) :
    Dealing → Prop
  | .native d => d.Allowed (serving served handler) c.session
  | .foreign _ _ none => True
  | .foreign _ (some _) (some _) => HasRoomFor served c.session.scene
  | .foreign callId none (some _) =>
    c.session.scene.HasRoom 2 .left ∧
      ∃ answer, AnsweredMissing served handler c.session callId answer

/-- The connection after a dealing, if it comes to an end. -/
def deal (c : Connection) : Dealing → Option Connection
  | .native d => (c.session.perform d).map fun s ↦ { c with session := s }
  | .foreign callId request out => (c.call callId request out).map (·.2.2)

/-- The connection after dealings, one after the other. -/
def dealAll (c : Connection) (dealings : List Dealing) : Option Connection := dealings.foldlM deal c

/-- Each dealing is allowed when it is its turn. -/
def Feasible (served : List Registration) (handler : Option ForeignHandler) :
    Connection → List Dealing → Prop
  | _, [] => True
  | c, d :: dealings => c.Allowed served handler d ∧
    ∀ t, c.deal d = some t → Feasible served handler t dealings

/-- A call back of a handler is answered by the peer, since the peer waits for its own call. -/
theorem exists_comesTo {s : Session}
    (h : s.Idle fun side ↦ .ofList (serving served handler side))
    (hroom : s.scene.HasRoom 3 .right) (callId : UInt32) (v : UInt64) (backId : UInt32)
    (w : UInt64) :
    ∃ told : Option UInt64,
      (Query.ofWord .left backId w).ComesTo (fun side ↦ .ofList (serving served handler side))
        ((Query.ofWord .right callId v).enter s.scene) told := by
  have haccepted := h.accepted (.ofWord .left backId w)
  obtain ⟨told, htold⟩ : ∃ told : Option UInt64, (Registry.ofList (registrations handler)).Answers
      (Query.ComesWithin (fun side ↦ .ofList (serving served handler side)) 0
        ((Query.ofWord .left backId w).enter ((Query.ofWord .right callId v).enter s.scene)))
      (.ofWord .left backId w)
      ((Query.ofWord .left backId w).memory ((Query.ofWord .right callId v).enter s.scene).heap)
      ((Query.ofWord .left backId w).address ((Query.ofWord .right callId v).enter s.scene).heap)
      told := by
    cases handler with
    | none => exact ⟨none, .unserved rfl⟩
    | some g => exact ⟨_, .served rfl (.reply _)⟩
  exact ⟨told, 1, ⟨haccepted.worker, haccepted.ticket⟩,
    (hroom.enter .right callId v).fits .left backId w told, htold⟩

/-- The peer's calls with words have answers. -/
theorem exists_answeredBy (hserved : ∀ r ∈ served, r.All Handler.InWords) {s : Session}
    (h : s.Idle fun side ↦ .ofList (serving served handler side))
    (hroom : HasRoomFor served s.scene) (callId : UInt32) (v : UInt64) :
    ∃ answer, (Query.ofWord .right callId v).AnsweredBy (serving served handler) s answer := by
  obtain ⟨hroom, hback⟩ := hroom
  have hread : Ty.word.readAt _ _ = .ok v := (hroom.fits .right callId v none).readAt
  refine Registration.exists_answers (fun r hr ↦ ?_) callId v
  rcases hback with hreplies | hback
  · exact (hreplies r hr).mono fun g hg ↦ hg.exists_yields _ _ hread
  · exact (hserved r hr).mono fun g hg ↦
      (hg _ _ v hread).exists_yields (exists_comesTo h hback callId v)

/-- What is allowed comes to its end, and no call is under way afterwards. -/
theorem Settled.deal (h : c.Settled served handler) (hserved : ∀ r ∈ served, r.All Handler.InWords)
    {d : Dealing} (hd : c.Allowed served handler d) :
    ∃ c', c.deal d = some c' ∧ c'.Settled served handler := by
  cases d with
  | native d =>
    obtain ⟨s, hperform, hs⟩ := h.idle.perform hd
    exact ⟨{ c with session := s }, by rw [Connection.deal, hperform]; rfl, h.isAttached, hs⟩
  | foreign callId request out =>
    cases out with
    | none => exact ⟨c, rfl, h⟩
    | some before =>
      cases request with
      | some v =>
        obtain ⟨answer, hanswer⟩ := exists_answeredBy hserved h.idle hd callId v
        obtain ⟨c', hcall, hc', -⟩ := h.call hd.1 hanswer before
        exact ⟨c', by rw [Connection.deal, hcall]; rfl, hc'⟩
      | none =>
        obtain ⟨hroom, answer, hanswer⟩ := hd
        obtain ⟨status, out, c', hcall, hc'⟩ := h.call_of_missing hroom hanswer before
        exact ⟨c', by rw [Connection.deal, hcall]; rfl, hc'⟩

/-- So does one thing after the other, each of which is allowed when it is its turn. -/
theorem Settled.dealAll (h : c.Settled served handler)
    (hserved : ∀ r ∈ served, r.All Handler.InWords)
    {dealings : List Dealing} (hdealings : c.Feasible served handler dealings) :
    ∃ c', c.dealAll dealings = some c' ∧ c'.Settled served handler := by
  induction dealings generalizing c with
  | nil => exact ⟨c, rfl, h⟩
  | cons d dealings ih =>
    obtain ⟨hd, hrest⟩ := hdealings
    obtain ⟨t, hdeal, ht⟩ := h.deal hserved hd
    obtain ⟨c', hall, hc'⟩ := ih ht (hrest t hdeal)
    refine ⟨c', ?_, hc'⟩
    rw [Connection.dealAll, List.foldlM_cons, hdeal]
    exact hall

/-- **Another runtime is told what an end is told.** Let a peer attach to a session whose left end
serves calls with words, or panics, or serves none, and let the two call each other, keep replies
and give them back, one thing after the other, while the threads of both take turns in any order.
After that a call of the peer with a word comes to an end. It succeeds with the response that the
call of an end would have, it fails with the status for an unknown call where that call fails with
the error, and unless it succeeds it leaves alone the place for the response. Both leave the same
behind. In the other direction a handler of the peer answers any call with the word that it writes,
or 0. -/
theorem agree_dealAll {σ : Type} {os : Shared.System σ} {start : σ} {processors : Nat}
    {config : Config} {schedule : Schedule} {peer : Peer} (hleft : schedule.Lawful)
    (hpeer : peer.schedule.Lawful)
    (hconnect : connect os processors ⟨config, .ofList served, schedule⟩ peer start = .ok c)
    (hattached : c.isAttached = true) (hserved : ∀ r ∈ served, r.All Handler.InWords)
    {dealings : List Dealing} (hdealings : c.Feasible served peer.handler dealings) :
    ∃ t, c.dealAll dealings = some t ∧
      (∀ callId v before, HasRoomFor served t.session.scene →
        ∃ told s status out t',
          t.session.call .right callId .word v .word = some (told, s) ∧
          t.call callId (some v) (some before) = some (status, some out, t') ∧
          (∀ w, status = .success ∧ out = w ↔ told = .ok w) ∧
          (status = .unknownCall ↔ told = .error (.unknownCall callId)) ∧
          (status ≠ .success → out = before) ∧
          ∀ side, (t'.session.party side).endpoint.pendingCalls =
            (s.party side).endpoint.pendingCalls ∧
            (t'.session.party side).endpoint.storedReplies =
              (s.party side).endpoint.storedReplies) ∧
      ∀ h, peer.handler = some h → ∀ callId v, t.session.scene.HasRoom 2 .right →
        let q := Query.ofWord .left callId v
        ∃ s, t.session.call .left callId .word v .word =
          some (.ok ((h callId (q.memory t.session.heap) (q.address t.session.heap)).getD 0),
            s) := by
  obtain ⟨t, hall, ht⟩ :=
    (settled_connect hleft hpeer rfl hconnect hattached).dealAll hserved hdealings
  refine ⟨t, hall, fun callId v before hroom ↦ ?_, ?_⟩
  · obtain ⟨answer, hanswer⟩ := exists_answeredBy hserved ht.idle hroom callId v
    have hfits := hroom.1.fits .right callId v answer
    obtain ⟨s, hask, hs⟩ := ht.idle.ask (hanswer.registry hfits.readAt) hfits
    obtain ⟨t', hcall, -, ht'⟩ := ht.call hroom.1 hanswer before
    obtain ⟨hok, hunknown, hout⟩ := Status.ofResult_outcome .right callId v before answer
    refine ⟨_, s, _, _, t', hask, hcall, hok, hunknown, hout, fun side ↦ ⟨?_, ?_⟩⟩
    · exact (ht'.party side).pending.len_eq.trans (hs.party side).pending.len_eq.symm
    · exact (ht'.party side).stored.len_eq.trans (hs.party side).stored.len_eq.symm
  · intro h hhandler callId v hroom q
    have hfits := hroom.fits .left callId v
      (some ((h callId (q.memory t.session.heap) (q.address t.session.heap)).getD 0))
    have hanswer : q.AnsweredBy (serving served peer.handler) t.session
        (some ((h callId (q.memory t.session.heap) (q.address t.session.heap)).getD 0)) := by
      rw [hhandler]
      exact .fallback rfl rfl (.reply _)
    obtain ⟨s, hask, -⟩ := ht.idle.ask (hanswer.registry hfits.readAt) hfits
    exact ⟨s, hask⟩

/-- The number before another one, if there is one. -/
def before? (v : UInt64) : Option UInt64 := if v = 0 then none else some (v - 1)

/-- Answers what the peer answers at 7, and panics if that fails. -/
def asking : Handler := .reading .word .word fun v ↦ .call 7 .word v .word fun
  | .ok w => .reply .word w
  | .error _ => .panic

/-- Counts down on calls of 3, and asks the peer on calls of 4. -/
def counting : List Registration :=
  [.handler 3 (.evaluating .word .word before?), .handler 4 asking]

theorem inWords_asking : asking.InWords := by
  intro m address v hread
  rw [asking, Handler.react_reading hread]
  refine .call fun told ↦ ?_
  cases told with
  | error => exact .panic
  | ok w => exact .reply w

/-- Answers a call with its id, and one of 5 with nothing. -/
def echo : ForeignHandler := fun callId _ _ ↦ if callId = 5 then none else some callId.toUInt64

/-- The end that counts down. -/
def counter : Setup := ⟨Session.smallest .left, .ofList counting, .inTurn⟩

/-- The peer that echoes. -/
def echoer : Peer := ⟨Session.smallest .right, some echo, .inTurn⟩

/-- A session with a peer that echoes. -/
def echoing : Connection :=
  (connect Shared.Store.system 1 counter echoer .empty).toOption.get (by decide +kernel)

/-- The left end has called the peer, and keeps the reply. -/
def echoed : Connection :=
  (echoing.dealAll [.native (.keep (.ofWord .left 7 1))]).get (by decide +kernel)

theorem connect_echoing : connect Shared.Store.system 1 counter echoer .empty = .ok echoing := by
  have hget : _ = some echoing := (Option.some_get _).symm
  generalize connect Shared.Store.system 1 counter echoer .empty = made at hget ⊢
  cases made with
  | error => cases hget
  | ok c => exact congrArg _ (Option.some.inj hget)

/-- While a reply of the peer is kept, the peer is answered by way of a call back, and answers with
nothing. -/
theorem agree_dealAll_echoing :
    counter.schedule.Lawful ∧ echoer.schedule.Lawful ∧
    connect Shared.Store.system 1 counter echoer .empty = .ok echoing ∧
    echoing.isAttached = true ∧ (∀ r ∈ counting, r.All Handler.InWords) ∧
    echoing.Feasible counting echoer.handler [.native (.keep (.ofWord .left 7 1))] ∧
    HasRoomFor counting echoed.session.scene ∧ echoed.session.scene.HasRoom 2 .right ∧
    (∃ s, echoed.session.call .right 4 .word (41 : UInt64) .word = some (.ok (7 : UInt64), s)) ∧
    ∃ s, echoed.session.call .left 5 .word (1 : UInt64) .word = some (.ok (0 : UInt64), s) := by
  have hattached : echoing.isAttached = true := by decide +kernel
  have hserved : ∀ r ∈ counting, r.All Handler.InWords := by
    intro r hr
    rcases List.mem_pair.1 hr with rfl | rfl
    · exact (Handler.repliesByWord_evaluating _).inWords
    · exact inWords_asking
  have hroom : echoing.session.scene.HasRoom 2 .right :=
    ⟨by decide +kernel, .inl (by decide +kernel)⟩
  have hfeasible :
      echoing.Feasible counting echoer.handler [.native (.keep (.ofWord .left 7 1))] :=
    ⟨⟨some (7 : UInt64), .fallback rfl rfl (.reply _), hroom.fits .left 7 1 _⟩, fun _ _ ↦ trivial⟩
  have hleft : HasRoomFor counting echoed.session.scene :=
    ⟨⟨by decide +kernel, .inl (by decide +kernel)⟩,
      .inr ⟨by decide +kernel, .inr (by decide +kernel)⟩⟩
  have hright : echoed.session.scene.HasRoom 2 .right :=
    ⟨by decide +kernel, .inr (by decide +kernel)⟩
  have hkept : echoing.dealAll [.native (.keep (.ofWord .left 7 1))] = some echoed :=
    (Option.some_get _).symm
  have hlawful := Schedule.lawful_inTurn
  obtain ⟨t, hall, hagree, hanswers⟩ :=
    agree_dealAll hlawful hlawful connect_echoing hattached hserved hfeasible
  obtain rfl : echoed = t := Option.some.inj (hkept.symm.trans hall)
  obtain ⟨told, s, status, out, t', hcall, hforeign, hok, -⟩ := hagree 4 (41 : UInt64) 0 hleft
  have hsucceeds : (echoed.call 4 (some 41) (some 0)).map (fun r ↦ (r.1, r.2.1)) =
      some (.success, some 7) := by decide +kernel
  rw [hforeign] at hsucceeds
  obtain ⟨hstatus, hout⟩ := Prod.mk.inj (Option.some.inj hsucceeds)
  have htold := (hok 7).1 ⟨hstatus, Option.some.inj hout⟩
  exact ⟨hlawful, hlawful, connect_echoing, hattached, hserved, hfeasible, hleft, hright,
    ⟨s, htold ▸ hcall⟩, hanswers echo rfl 5 (1 : UInt64) hright⟩

end Connection

end Foreign

end RingCall
