import RingCall.Proofs.Call.Opening
import RingCall.Shared.Store

/-!
# What calls are answered

Two ends call each other, one call after the other. Whatever they did before, whatever the sizes
that they were configured with, and in whatever order their threads take turns, a call is answered
by the handler that was registered last for its id, or else by the last fallback; it fails if there
is neither, or if that one panics (`Session.ask_performAll`).

A handler may call the peer before it replies, and goes on with what it is told. What its calls are
told is said by the handlers that serve them (`Query.ComesTo`).

A call leaves nothing behind: no ticket, no response and no memory (`Session.Idle.ask`). So what
calls are told does not depend on the calls before them (`Session.Idle.askAll`), nor on replies that
are still kept. A reply that is kept only takes up memory and a handle, of which enough must be left
(`Query.Fits`).
-/

namespace RingCall

open Wire

/-! ### One call -/

namespace Session

variable {s s' : Session} {registry : Side → Registry} {q : Query}
  {answer : Option q.response.Value}

/-- A call of an end. -/
def ask (s : Session) (q : Query) : Option (Except Error q.response.Value × Session) :=
  s.call q.side q.callId q.request q.value q.response

/-- **A call is answered**, and leaves the session as it was. -/
theorem Idle.ask (h : s.Idle registry)
    (hanswer : (registry q.side.other).Answers
      (fun nested told ↦ nested.ComesTo registry (q.enter s.scene) told)
      q (q.memory s.heap) (q.address s.heap) answer)
    (hfits : q.Fits answer s.scene) :
    ∃ t, s.ask q = some (q.outcome answer, t) ∧ s.Resumes t :=
  Poised.callWithin registry s.depth s.scene s h.poised rfl q answer
    ⟨h.accepted q, hfits, hanswer.within (s.spare_serving_le q.side)⟩

/-- A call that is answered, and whose reply is kept. -/
theorem Idle.callRaw (h : s.Idle registry)
    (hanswer : (registry q.side.other).Answers
      (fun nested told ↦ nested.ComesTo registry (q.enter s.scene) told)
      q (q.memory s.heap) (q.address s.heap) answer)
    (hfits : q.Fits answer s.scene) :
    ∃ v t, s.callRaw q.side q.callId q.request q.value = some (v, t) ∧ t.Idle registry ∧
      ∃ u, t.finish q.side v q.response = some (q.outcome answer, u) ∧ s.Resumes u := by
  obtain ⟨v, t, hcall, ⟨response, e, call, hkeeps⟩, hfinish⟩ := h.poised.exists_answer
    (h.accepted q) hfits (Poised.callWithin registry s.depth _)
    (hanswer.within (Nat.le_succ_of_le (s.spare_serving_le q.side)))
  exact ⟨v, t, hcall, h.keeps hkeeps, hfinish⟩

end Session

/-! ### One call after the other -/

/-- What is done with a session while no call is under way. -/
inductive Deed where
  /-- An end calls the other one and reads the response. -/
  | call (q : Query)
  /-- An end calls the other one and keeps the reply. -/
  | keep (q : Query)
  /-- An end gives a reply back. -/
  | release (side : Side) (v : ReplyView)

/-- What a call is answered by the registrations of its peer. The calls of handlers are answered by
the registrations of both ends. -/
def Query.AnsweredBy (served : Side → List Registration) (q : Query) (s : Session)
    (answer : Option q.response.Value) : Prop :=
  Registration.Answers
    (fun nested told ↦ nested.ComesTo (fun side ↦ .ofList (served side)) (q.enter s.scene) told)
    (served q.side.other) q (q.memory s.heap) (q.address s.heap) answer

/-- Calls have an answer of the type that their callers expect, and there is room for them. -/
def Deed.Allowed (served : Side → List Registration) (s : Session) : Deed → Prop
  | call q | keep q => ∃ answer, q.AnsweredBy served s answer ∧ q.Fits answer s.scene
  | release _ _ => True

namespace Session

variable {s s' : Session} {served : Side → List Registration}

/-- The session after a deed, if it comes to an end. -/
def perform (s : Session) : Deed → Option Session
  | .call q => (s.ask q).map (·.2)
  | .keep q => (s.callRaw q.side q.callId q.request q.value).map (·.2)
  | .release side v => some (s.release side v)

/-- The session after deeds, one after the other. -/
def performAll (s : Session) (deeds : List Deed) : Option Session := deeds.foldlM perform s

/-- Each deed is allowed when it is its turn. -/
def Feasible (served : Side → List Registration) : Session → List Deed → Prop
  | _, [] => True
  | s, d :: deeds => d.Allowed served s ∧ ∀ t, s.perform d = some t → Feasible served t deeds

/-- The calls of ends, one after the other, with what they are told. -/
def askAll (s : Session) :
    List Query → Option (List ((q : Query) × Except Error q.response.Value) × Session)
  | [] => some ([], s)
  | q :: qs => do
    let (told, s) ← s.ask q
    let (rest, s) ← s.askAll qs
    return (⟨q, told⟩ :: rest, s)

/-- What calls are answered depends on what they find. -/
theorem allowed_of_scene_eq {q : Query} (hscene : s'.scene = s.scene)
    (h : (Deed.call q).Allowed served s) : (Deed.call q).Allowed served s' := by
  have hheap : s'.heap = s.heap := congrArg Scene.heap hscene
  obtain ⟨answer, hanswer, hfits⟩ := h
  refine ⟨answer, ?_, hscene ▸ hfits⟩
  rwa [Query.AnsweredBy, hscene, hheap]

/-- Calls are told the same in sessions in which they find the same. -/
theorem Idle.askAll (h : s.Idle fun side ↦ .ofList (served side))
    (h' : s'.Idle fun side ↦ .ofList (served side)) (hscene : s'.scene = s.scene)
    {qs : List Query} (hqs : ∀ q ∈ qs, (Deed.call q).Allowed served s) :
    ∃ told t t', s.askAll qs = some (told, t) ∧ s'.askAll qs = some (told, t') := by
  induction qs generalizing s s' with
  | nil => exact ⟨[], s, s', rfl, rfl⟩
  | cons q qs ih =>
    have hq := hqs q List.mem_cons_self
    have hheap : s'.heap = s.heap := congrArg Scene.heap hscene
    obtain ⟨answer, hanswer, hfits⟩ := hq
    have hregistry := hanswer.registry hfits.readAt
    obtain ⟨u, hask, hu⟩ := h.ask hregistry hfits
    obtain ⟨u', hask', hu'⟩ := h'.ask (by rw [hscene, hheap]; exact hregistry) (hscene ▸ hfits)
    have hleft : u'.scene = u.scene := (hu'.scene_eq.trans hscene).trans hu.scene_eq.symm
    obtain ⟨told, t, t', ht, ht'⟩ := ih (h.resumes hu) (h'.resumes hu') hleft fun later hlater ↦
      allowed_of_scene_eq hu.scene_eq (hqs later (List.mem_cons_of_mem q hlater))
    refine ⟨⟨q, q.outcome answer⟩ :: told, t, t', ?_, ?_⟩
    · rw [Session.askAll, hask]
      simp only [ht, Option.bind_eq_bind, Option.bind_some, Option.pure_def]
    · rw [Session.askAll, hask']
      simp only [ht', Option.bind_eq_bind, Option.bind_some, Option.pure_def]

/-- What is allowed comes to its end, and no call is under way afterwards. -/
theorem Idle.perform (h : s.Idle fun side ↦ .ofList (served side)) {d : Deed}
    (hd : d.Allowed served s) :
    ∃ t, s.perform d = some t ∧ t.Idle fun side ↦ .ofList (served side) := by
  cases d with
  | call q =>
    obtain ⟨answer, hanswer, hfits⟩ := hd
    obtain ⟨t, hask, ht⟩ := h.ask (hanswer.registry hfits.readAt) hfits
    exact ⟨t, by rw [Session.perform, hask]; rfl, h.resumes ht⟩
  | keep q =>
    obtain ⟨answer, hanswer, hfits⟩ := hd
    obtain ⟨v, t, hcall, ht, -⟩ := h.callRaw (hanswer.registry hfits.readAt) hfits
    exact ⟨t, by rw [Session.perform, hcall]; rfl, ht⟩
  | release side v => exact ⟨_, rfl, h.release side v⟩

/-- So does one thing after the other, each of which is allowed when it is its turn. -/
theorem Idle.performAll (h : s.Idle fun side ↦ .ofList (served side)) {deeds : List Deed}
    (hdeeds : Feasible served s deeds) :
    ∃ t, s.performAll deeds = some t ∧ t.Idle fun side ↦ .ofList (served side) := by
  induction deeds generalizing s with
  | nil => exact ⟨s, rfl, h⟩
  | cons d deeds ih =>
    obtain ⟨hd, hrest⟩ := hdeeds
    obtain ⟨t, hperform, ht⟩ := h.perform hd
    obtain ⟨u, hall, hu⟩ := ih ht (hrest t hperform)
    refine ⟨u, ?_, hu⟩
    rw [Session.performAll, List.foldlM_cons, hperform]
    exact hall

/-- **What calls answer.** In a session that has just been made, let the ends make calls, keep
replies and give them back, one thing after the other, while the threads of both take turns in any
order. After that a call has the answer of the last registrations of the peer. Then no call awaits a
reply, as many responses are kept as before, and later calls are told what they would have been told
without this one. A handler that is registered for another id serves no call of this one. -/
theorem ask_performAll {σ : Type} {os : Shared.System σ} {start : σ} {processors : Nat}
    {config : Side → Config} {served : Side → List Registration} {schedule : Side → Schedule}
    {s : Session} (hlawful : ∀ side, (schedule side).Lawful)
    (hpair : pair os processors ⟨config .left, .ofList (served .left), schedule .left⟩
      ⟨config .right, .ofList (served .right), schedule .right⟩ start = .ok s)
    {deeds : List Deed} (hdeeds : Feasible served s deeds) :
    ∃ t, s.performAll deeds = some t ∧ ∀ (q : Query) (answer : Option q.response.Value),
      q.AnsweredBy served t answer → q.Fits answer t.scene →
        ∃ t', t.ask q = some (q.outcome answer, t') ∧
          (∀ side, (t'.party side).endpoint.pendingCalls = 0 ∧
            (t'.party side).endpoint.storedReplies = (t.party side).endpoint.storedReplies) ∧
          (∀ later : List Query, (∀ q' ∈ later, (Deed.call q').Allowed served t) →
            ∃ told u u', t.askAll later = some (told, u) ∧ t'.askAll later = some (told, u')) ∧
          ∀ before after i h, i ≠ q.callId →
            (Registry.ofList (before ++ .handler i h :: after)).find? q.callId =
              (Registry.ofList (before ++ after)).find? q.callId := by
  let setup (side : Side) : Setup := ⟨config side, .ofList (served side), schedule side⟩
  have hs : s.Idle fun side ↦ (setup side).registry := idle_pair hlawful hpair
  obtain ⟨t, hall, ht⟩ := hs.performAll hdeeds
  refine ⟨t, hall, fun q answer hanswer hfits ↦ ?_⟩
  obtain ⟨t', hask, hresumes⟩ := ht.ask (hanswer.registry hfits.readAt) hfits
  have ht' := ht.resumes hresumes
  refine ⟨t', hask,
    fun side ↦ ⟨ht'.pendingCalls_eq side, (hresumes.party side).stored.len_eq⟩, ?_, ?_⟩
  · intro later hlater
    exact ht.askAll ht' hresumes.scene_eq hlater
  · intro before after i h hne
    exact Registry.find?_ofList_insert hne before after h

/-- Both ends have the smallest configuration. -/
def smallest (_ : Side) : Config := { capacity := 1, workers := some 1, depth := 1, shards := 1 }

/-- A text, unless it is empty. -/
def nonEmpty (s : String) : Option String := if s = "" then none else some s

/-- Answers what the peer answers at 3, and panics if that fails. -/
def relaying : Handler := .reading .string .string fun v ↦ .call 3 .string v .string fun
  | .ok w => .reply .string w
  | .error _ => .panic

/-- The left end repeats a text that is sent to 3, if it is not empty. So does the right end at 7,
and at 8 by calling the left end. It answers any other id with the id. -/
def repeating : Side → List Registration
  | .left => [.handler 3 (.evaluating .string .string nonEmpty)]
  | .right => [
    .handler 7 (.evaluating .string .string nonEmpty),
    .handler 8 relaying,
    .fallback fun i ↦ .typed .string (.prim .u32) fun _ ↦ i]

/-- An end of the smallest configuration. -/
def repeater (side : Side) : Setup := ⟨smallest side, .ofList (repeating side), .inTurn⟩

/-- Two ends that repeat texts. -/
def repeated : Session :=
  (pair Shared.Store.system 1 (repeater .left) (repeater .right) .empty).toOption.get
    (by decide +kernel)

/-- A text that is sent to the other end. -/
def twoLetters (side : Side) (callId : UInt32) : Query := ⟨side, callId, .string, "ab", .string⟩

/-- The session in which the left end has called, and keeps the reply. -/
def repeatedOnce : Session :=
  (repeated.performAll [.keep (twoLetters .left 7)]).get (by decide +kernel)

theorem pair_repeating :
    pair Shared.Store.system 1 (repeater .left) (repeater .right) .empty = .ok repeated := by
  have hget : _ = some repeated := (Option.some_get _).symm
  generalize pair Shared.Store.system 1 (repeater .left) (repeater .right) .empty = made at hget ⊢
  cases made with
  | error => cases hget
  | ok s => exact congrArg _ (Option.some.inj hget)

/-- What the left end answers at 3 is answered by the right end at 8. -/
theorem answeredBy_relaying {s : Session} {w : String}
    (hfits : (twoLetters .left 8).Fits (some w) s.scene)
    (hcomes : (twoLetters .right 3).ComesTo (fun side ↦ .ofList (repeating side))
      ((twoLetters .left 8).enter s.scene) (some w)) :
    (twoLetters .left 8).AnsweredBy repeating s (some w) := by
  have hread : Ty.string.readAt ((twoLetters .left 8).memory s.heap)
      ((twoLetters .left 8).address s.heap).toNat = .ok "ab" := hfits.readAt
  refine .raw (h := relaying) rfl ?_
  rw [relaying, Handler.react_reading hread]
  exact .call hcomes (.reply (t := .string) w)

/-- A call is answered by way of a call back, while the reply to another one is kept. -/
theorem ask_performAll_repeating :
    (∀ side, (repeater side).schedule.Lawful) ∧
    pair Shared.Store.system 1 (repeater .left) (repeater .right) .empty = .ok repeated ∧
    Feasible repeating repeated [.keep (twoLetters .left 7)] ∧
    (twoLetters .left 8).AnsweredBy repeating repeatedOnce (some "ab") ∧
    (twoLetters .left 8).Fits (some "ab") repeatedOnce.scene ∧
    ∃ t, repeatedOnce.ask (twoLetters .left 8) = some (.ok "ab", t) ∧
      (t.party .right).endpoint.storedReplies = 1 := by
  have hvalue : nonEmpty "ab" = some "ab" := by decide
  have hcount : (twoLetters .left 7).request.Countable (twoLetters .left 7).value := by decide
  have hresponse : ∀ w, some "ab" = some w → Ty.string.Countable w := by
    rintro w ⟨⟩
    exact hcount
  have hanswer : (twoLetters .left 7).AnsweredBy repeating repeated (some "ab") := by
    have htyped : (twoLetters .left 7).AnsweredBy repeating repeated (nonEmpty "ab") := .typed rfl
    rwa [hvalue] at htyped
  have hfits : (twoLetters .left 7).Fits (some "ab") repeated.scene := by
    refine ⟨hcount, by decide +kernel, hresponse, ?_, .inl (by decide +kernel)⟩
    rintro w ⟨⟩
    decide +kernel
  have hfits' : (twoLetters .left 8).Fits (some "ab") repeatedOnce.scene := by
    refine ⟨hcount, by decide +kernel, hresponse, ?_, .inr (by decide +kernel)⟩
    rintro w ⟨⟩
    decide +kernel
  -- the call back finds the worker of the left end, while that of the right end is taken
  let scene := (twoLetters .left 8).enter repeatedOnce.scene
  have hback : (twoLetters .right 3).Fits (some "ab") scene := by
    refine ⟨hcount, by decide +kernel, hresponse, ?_, .inl (by decide +kernel)⟩
    rintro w ⟨⟩
    decide +kernel
  have hcomes : (twoLetters .right 3).ComesTo (fun side ↦ .ofList (repeating side)) scene
      (some "ab") := by
    refine ⟨1, ⟨by decide +kernel, .inl (by decide +kernel)⟩, hback, ?_⟩
    have htyped : Registration.Answers (Query.ComesWithin (fun side ↦ .ofList (repeating side)) 0
        ((twoLetters .right 3).enter scene)) (repeating .left) (twoLetters .right 3)
        ((twoLetters .right 3).memory scene.heap) ((twoLetters .right 3).address scene.heap)
        (nonEmpty "ab") := .typed rfl
    rw [hvalue] at htyped
    exact htyped.registry hback.readAt
  have hrelayed := answeredBy_relaying hfits' hcomes
  have hkept : repeated.performAll [.keep (twoLetters .left 7)] = some repeatedOnce :=
    (Option.some_get _).symm
  have hfeasible : Feasible repeating repeated [.keep (twoLetters .left 7)] :=
    ⟨⟨_, hanswer, hfits⟩, fun _ _ ↦ trivial⟩
  have hlawful : ∀ side, (repeater side).schedule.Lawful := fun _ ↦ Schedule.lawful_inTurn
  obtain ⟨t, hall, hask⟩ := ask_performAll hlawful pair_repeating hfeasible
  obtain rfl : repeatedOnce = t := Option.some.inj (hkept.symm.trans hall)
  obtain ⟨t', hanswered, hcounts, -⟩ := hask (twoLetters .left 8) _ hrelayed hfits'
  exact ⟨hlawful, pair_repeating, hfeasible, hrelayed, hfits', t', hanswered,
    (hcounts .right).2.trans (by decide +kernel)⟩

end Session

end RingCall
