import RingCall.Failure.Error
import RingCall.Wire.Decode

/-!
# Handlers

A handler serves the calls of one id. It is given the address of the request and reacts: it replies
with a value, it panics, or it first makes a call of its own and goes on with what that call
answers. Its reaction is data (`Reaction`), so that whoever runs it decides how its calls are made.

A `Registry` says which handler serves which id. The handler that was registered last for an id
serves it, and a fallback serves all ids without one.
-/

namespace RingCall

open Wire

/-- What a handler does. -/
inductive Reaction where
  /-- Reply with a value. -/
  | reply (t : Ty) (v : t.Value)
  | panic
  /-- Call the peer with a request of one type for a response of another, and go on with the
  answer. -/
  | call (callId : UInt32) (request : Ty) (v : request.Value) (response : Ty)
      (resume : Except Error response.Value → Reaction)

/-- A handler, with the types of the requests and the responses that it and its callers agree on. -/
structure Handler where
  request : Ty
  response : Ty
  /-- The reaction to a call, given the memory and the address of the request. -/
  react : Memory → UInt64 → Reaction

namespace Handler

/-- A handler that reads its request. A request that cannot be read makes it panic. -/
def reading (request response : Ty) (body : request.Value → Reaction) : Handler where
  request := request
  response := response
  react m address :=
    match request.readAt m address.toNat with
    | .ok v => body v
    | .error _ => .panic

/-- A handler that computes its response from its request. -/
def typed (request response : Ty) (f : request.Value → response.Value) : Handler :=
  reading request response fun v ↦ .reply response (f v)

end Handler

/-- Which handler serves which calls. -/
structure Registry where
  /-- A table of handlers. The number of a place is the id that is served. -/
  handlers : Array (Option Handler)
  /-- Serves the ids without a handler. -/
  fallback : Option (UInt32 → Handler)

namespace Registry

/-- A registry that serves nothing. -/
def empty : Registry := ⟨#[], none⟩

/-- Lets a handler serve an id. The table grows if it has no place for the id yet. -/
def register (r : Registry) (callId : UInt32) (h : Handler) : Registry :=
  let place := callId.toNat
  let table :=
    if r.handlers.size ≤ place then r.handlers.rightpad (place + 1) none else r.handlers
  { r with handlers := table.setIfInBounds place (some h) }

/-- Lets a handler serve all ids that have none of their own. -/
def withFallback (r : Registry) (h : UInt32 → Handler) : Registry := { r with fallback := some h }

/-- The handler that is registered for an id. -/
def handlerAt? (r : Registry) (callId : UInt32) : Option Handler :=
  r.handlers[callId.toNat]?.join

/-- The handler that serves an id. -/
def find? (r : Registry) (callId : UInt32) : Option Handler :=
  match r.handlerAt? callId with
  | some h => some h
  | none => r.fallback.map (· callId)

end Registry

end RingCall
