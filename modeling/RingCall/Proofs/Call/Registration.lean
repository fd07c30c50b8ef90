import Mathlib.Data.List.Induction
import RingCall.Call.Endpoint
import RingCall.Proofs.Lists

/-!
# Registrations

Which handler serves a call, read off the registrations of an end in the order in which they were
made (`Registry.find?_ofList`): the last handler for the call's id, or else the last fallback.
-/

namespace RingCall

open Wire

/-! ### How handlers answer -/

/-- To reply with a value, or to panic if there is none. -/
def Reaction.ofAnswer (t : Ty) : Option t.Value → Reaction
  | some w => .reply t w
  | none => .panic

namespace Handler

/-- A handler that computes its response from its request, or panics. -/
def evaluating (request response : Ty) (f : request.Value → Option response.Value) : Handler :=
  reading request response fun v ↦ .ofAnswer response (f v)

section

variable {request response : Ty} {m : Memory} {address : UInt64} {v : request.Value}

/-- A handler that reads its request goes on with the value that was stored there. -/
theorem react_reading {body : request.Value → Reaction}
    (hread : request.readAt m address.toNat = .ok v) :
    (reading request response body).react m address = body v := by
  simp only [reading, hread]

/-- A handler that computes its response replies with the value of its function, if there is one. -/
theorem react_evaluating {f : request.Value → Option response.Value}
    (hread : request.readAt m address.toNat = .ok v) :
    (evaluating request response f).react m address = .ofAnswer response (f v) :=
  react_reading hread

end

end Handler

/-! ### Which handler serves a call -/

/-- What an end is told before it starts. -/
inductive Registration where
  /-- A handler is to serve an id. -/
  | handler (callId : UInt32) (h : Handler)
  /-- A handler is to serve all ids that have none. -/
  | fallback (h : UInt32 → Handler)

namespace Registration

/-- The handler for an id. -/
def handlerFor? (callId : UInt32) : Registration → Option Handler
  | handler i h => if i = callId then some h else none
  | fallback _ => none

/-- The handler for all ids that have none. -/
def fallback? : Registration → Option (UInt32 → Handler)
  | handler _ _ => none
  | fallback h => some h

/-- The last handler for an id. -/
def lastHandler? (rs : List Registration) (callId : UInt32) : Option Handler :=
  rs.reverse.findSome? (handlerFor? callId)

/-- The last fallback. -/
def lastFallback? (rs : List Registration) : Option (UInt32 → Handler) :=
  rs.reverse.findSome? fallback?

/-- A handler that is registered takes over from the one before. -/
theorem lastHandler?_concat (rs : List Registration) (r : Registration) (callId : UInt32) :
    lastHandler? (rs ++ [r]) callId = (r.handlerFor? callId).or (lastHandler? rs callId) :=
  List.findSome?_reverse_concat _ rs r

/-- A fallback that is set takes over from the one before. -/
theorem lastFallback?_concat (rs : List Registration) (r : Registration) :
    lastFallback? (rs ++ [r]) = r.fallback?.or (lastFallback? rs) :=
  List.findSome?_reverse_concat _ rs r

/-- Registering a handler for one id changes nothing for another one. -/
theorem lastHandler?_insert {callId i : UInt32} (hne : i ≠ callId)
    (before after : List Registration) (h : Handler) :
    lastHandler? (before ++ handler i h :: after) callId = lastHandler?
      (before ++ after) callId := by
  simp [lastHandler?, handlerFor?, hne, List.findSome?_append]

/-- Registering a handler leaves the fallback alone. -/
theorem lastFallback?_insert (i : UInt32) (before after : List Registration) (h : Handler) :
    lastFallback? (before ++ handler i h :: after) = lastFallback? (before ++ after) := by
  simp [lastFallback?, fallback?, List.findSome?_append, List.findSome?_cons]

end Registration

namespace Registry

open Registration

/-- New places of a table are without a handler, so growing it registers none. -/
theorem join_getElem?_rightpad (table : Array (Option Handler)) (n i : Nat) :
    (table.rightpad n none)[i]?.join = table[i]?.join := by
  rw [Array.rightpad]
  by_cases hold : i < table.size
  · rw [Array.getElem?_append_left hold]
  · have hge : table.size ≤ i := Nat.le_of_not_lt hold
    rw [Array.getElem?_append_right hge, Array.getElem?_eq_none hge, Array.getElem?_replicate]
    split <;> rfl

/-- A handler that is registered takes the place of its id, and leaves the other places alone. -/
@[simp]
theorem handlerAt?_register (r : Registry) (callId i : UInt32) (h : Handler) :
    (r.register callId h).handlerAt? i = if i = callId then some h else r.handlerAt? i := by
  rw [handlerAt?, handlerAt?, register]
  simp only
  generalize htable : (if r.handlers.size ≤ callId.toNat then
    r.handlers.rightpad (callId.toNat + 1) none else r.handlers) = table
  have hsize : callId.toNat < table.size := by
    subst htable
    split
    · rw [Array.size_rightpad]
      exact Nat.le_max_left _ _
    · omega
  have hsame : table[i.toNat]?.join = r.handlers[i.toNat]?.join := by
    subst htable
    split
    · exact join_getElem?_rightpad _ _ _
    · rfl
  by_cases hi : i = callId
  · rw [hi, Array.getElem?_setIfInBounds_self_of_lt hsize, if_pos rfl]
    rfl
  · have hne : callId.toNat ≠ i.toNat := fun heq ↦ hi (UInt32.toNat_inj.1 heq).symm
    rw [Array.getElem?_setIfInBounds_ne hne, if_neg hi, hsame]

/-- Does as a registration says. -/
def add (r : Registry) : Registration → Registry
  | .handler callId h => r.register callId h
  | .fallback h => r.withFallback h

/-- The registry after registrations in order. -/
def ofList (rs : List Registration) : Registry := rs.foldl add empty

/-- The last handler for an id serves it, and the last fallback serves the ids without a handler. -/
theorem find?_ofList (rs : List Registration) (callId : UInt32) :
    (ofList rs).find? callId =
      (lastHandler? rs callId).or ((lastFallback? rs).map fun h ↦ h callId) := by
  have hparts : (ofList rs).handlerAt? callId = lastHandler? rs callId ∧
      (ofList rs).fallback = lastFallback? rs := by
    induction rs using List.reverseRecOn with
    | nil => exact ⟨rfl, rfl⟩
    | append_singleton rs r ih =>
      have hadd : ofList (rs ++ [r]) = (ofList rs).add r := by rw [ofList, List.foldl_append]; rfl
      rw [hadd, lastHandler?_concat, lastFallback?_concat, ← ih.1, ← ih.2]
      cases r with
      | handler i h =>
        refine ⟨?_, rfl⟩
        rw [add, handlerAt?_register, handlerFor?]
        by_cases hi : callId = i
        · rw [if_pos hi, if_pos hi.symm, Option.some_or]
        · rw [if_neg hi, if_neg (Ne.symm hi), Option.none_or]
      | fallback h => exact ⟨rfl, rfl⟩
  rw [find?, hparts.1, hparts.2]
  cases lastHandler? rs callId <;> rfl

/-- What is registered for an id does not matter for another one. -/
theorem find?_ofList_insert {callId i : UInt32} (hne : i ≠ callId)
    (before after : List Registration) (h : Handler) :
    (ofList (before ++ .handler i h :: after)).find? callId =
    (ofList (before ++ after)).find? callId := by
  rw [find?_ofList, find?_ofList, lastHandler?_insert hne, lastFallback?_insert]

example (a b : Handler) (g : UInt32 → Handler) :
    (ofList [.handler 7 a, .fallback g, .handler 7 b]).find? 7 = some b ∧
      (ofList [.handler 7 a, .fallback g, .handler 7 b]).find? 9 = some (g 9) := ⟨rfl, rfl⟩

end Registry

/-! ### What calls are answered -/

/-- A call: which end makes it, of which id, with which request, and for a response of which
type. -/
structure Query where
  side : Side
  callId : UInt32
  request : Ty
  value : request.Value
  response : Ty

/-- What a caller is told, if the peer has a response, and if it has none. -/
def Query.outcome (q : Query) : Option q.response.Value → Except Error q.response.Value
  | some w => .ok w
  | none => .error (.unknownCall q.callId)

/-- What a handler's reaction at an end comes to, if calls are answered as `asks` says: a response,
or nothing if the handler panics. -/
inductive Reaction.Yields (asks : (q : Query) → Option q.response.Value → Prop) (side : Side)
    (t : Ty) : Reaction → Option t.Value → Prop where
  | reply (w : t.Value) : Yields asks side t (.reply t w) (some w)
  | panic : Yields asks side t .panic none
  /-- The handler calls the peer, and goes on with what it is told. -/
  | call {callId : UInt32} {request : Ty} {v : request.Value} {response : Ty}
      {resume : Except Error response.Value → Reaction} {answer : Option response.Value}
      {final : Option t.Value} (hasks : asks ⟨side, callId, request, v, response⟩ answer)
      (hresume : Yields asks side t
        (resume (Query.outcome ⟨side, callId, request, v, response⟩ answer)) final) :
      Yields asks side t (.call callId request v response resume) final

/-- The response of the handler of an id to a call, whose request is in memory at an address. There
is none if the id has no handler, or if its handler panics. Calls of the handler are answered as
`asks` says. -/
inductive Registry.Answers (asks : (q : Query) → Option q.response.Value → Prop) (r : Registry)
    (q : Query) (m : Memory) (address : UInt64) : Option q.response.Value → Prop where
  | served {h : Handler} {answer : Option q.response.Value} (hfind : r.find? q.callId = some h)
      (hreact : (h.react m address).Yields asks q.side.other q.response answer) :
      Answers asks r q m address answer
  | unserved (hfind : r.find? q.callId = none) : Answers asks r q m address none

/-- The response to a call after registrations. -/
inductive Registration.Answers (asks : (q : Query) → Option q.response.Value → Prop)
    (rs : List Registration) (q : Query) (m : Memory) (address : UInt64) :
    Option q.response.Value → Prop where
  /-- The last handler for the id computes it from the request. -/
  | typed {f : q.request.Value → Option q.response.Value}
      (hlast : lastHandler? rs q.callId = some (.evaluating q.request q.response f)) :
      Answers asks rs q m address (f q.value)
  /-- The last handler for the id gives it. -/
  | raw {h : Handler} {answer : Option q.response.Value} (hlast : lastHandler? rs q.callId = some h)
      (hreact : (h.react m address).Yields asks q.side.other q.response answer) :
      Answers asks rs q m address answer
  /-- The id has no handler, and the last fallback gives it. -/
  | fallback {h : UInt32 → Handler} {answer : Option q.response.Value}
      (hnone : lastHandler? rs q.callId = none) (hlast : lastFallback? rs = some h)
      (hreact : ((h q.callId).react m address).Yields asks q.side.other q.response answer) :
      Answers asks rs q m address answer
  /-- There is neither. -/
  | nobody (hnone : lastHandler? rs q.callId = none) (hfallback : lastFallback? rs = none) :
      Answers asks rs q m address none

section Answers

variable {asks asks' : (q : Query) → Option q.response.Value → Prop} {q : Query} {m : Memory}
  {address : UInt64} {answer : Option q.response.Value}

/-- A handler that makes no calls answers whatever calls are answered. -/
theorem Reaction.yields_ofAnswer {side : Side} {t : Ty} (final : Option t.Value) :
    (Reaction.ofAnswer t final).Yields asks side t final := by
  cases final with
  | none => exact .panic
  | some w => exact .reply w

/-- A reaction comes to the same if more calls are answered. -/
theorem Reaction.Yields.mono (hasks : ∀ q answer, asks q answer → asks' q answer) {side : Side}
    {t : Ty} {r : Reaction} {final : Option t.Value} (h : r.Yields asks side t final) :
    r.Yields asks' side t final := by
  induction h with
  | reply w => exact .reply w
  | panic => exact .panic
  | call hcall _ ih => exact .call (hasks _ _ hcall) ih

/-- A call has the same response if more calls of its handler are answered. -/
theorem Registry.Answers.mono (hasks : ∀ q answer, asks q answer → asks' q answer) {r : Registry}
    (h : r.Answers asks q m address answer) : r.Answers asks' q m address answer := by
  cases h with
  | served hfind hreact => exact .served hfind (hreact.mono hasks)
  | unserved hfind => exact .unserved hfind

/-- Registrations answer as the registry does that they make. -/
theorem Registration.Answers.registry {rs : List Registration}
    (h : Registration.Answers asks rs q m address answer)
    (hread : q.request.readAt m address.toNat = .ok q.value) :
    (Registry.ofList rs).Answers asks q m address answer := by
  have hfind := Registry.find?_ofList rs q.callId
  cases h with
  | typed hlast =>
    rw [hlast] at hfind
    refine .served hfind ?_
    rw [Handler.react_evaluating hread]
    exact Reaction.yields_ofAnswer _
  | raw hlast hreact =>
    rw [hlast] at hfind
    exact .served hfind hreact
  | fallback hnone hlast hreact =>
    rw [hnone, hlast] at hfind
    exact .served hfind hreact
  | nobody hnone hfallback =>
    rw [hnone, hfallback] at hfind
    exact .unserved hfind

end Answers

end RingCall
