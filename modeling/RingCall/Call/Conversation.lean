import RingCall.Call.Endpoint

/-!
# Conversations

Two endpoints and what is under way between them, when their threads go on in any order. The records
sent to an end arrive in the order in which they were sent, while the calls that an end has accepted
are served in any order and any number of callers are at work. A handler's own calls are like those
of any other caller.

`Conversation.step` says what a turn of one end does and when it can be taken, and
`Conversation.run?` takes turns one after another.
-/

namespace RingCall

/-- One end of a conversation. -/
structure Speaker where
  endpoint : Endpoint
  /-- The number of the next caller. Each makes one call. -/
  nextCaller : Nat
  /-- The calls made at this end, each under its caller. -/
  asked : List (Nat × Record)
  /-- The calls that have a ticket and were not sent yet. -/
  opened : List Record
  /-- The records sent to this end that it has not dispatched, the oldest first. -/
  inbound : List Record
  /-- The calls to this end that it has accepted and not concluded. -/
  jobs : List Record
  /-- The replies of this end that were not sent yet. -/
  outbox : List Record
  /-- The replies that have come for callers who have not looked at them. -/
  arrived : List (Nat × Record)
  /-- The replies that callers hold. -/
  views : List ReplyView

/-- A turn of one end. The things that are to be chosen among are known by their place. -/
inductive Turn where
  /-- A caller gets a ticket for its call. -/
  | openCall (callId : UInt32) (address : UInt64)
  /-- A call that has a ticket is sent. -/
  | sendCall (i : Nat)
  /-- The oldest record that was sent to this end is dispatched. -/
  | dispatch
  /-- The handler of an accepted call comes to its end, with a response or without. -/
  | conclude (i : Nat) (response : Option StoredReply)
  /-- A reply is sent. -/
  | sendReply (i : Nat)
  /-- A caller looks at the reply that has come for it. -/
  | receive (i : Nat)
  /-- A caller lets the reply go that it holds. -/
  | release (i : Nat)

/-- Both ends of a conversation. -/
def Conversation : Type := Side → Speaker

namespace Conversation

/-- An end at which nothing has happened. -/
def silent (e : Endpoint) : Speaker := ⟨e, 0, [], [], [], [], [], [], []⟩

/-- A conversation in which nothing has happened. -/
def start (left right : Endpoint) : Conversation
  | .left => silent left
  | .right => silent right

/-- Replaces one end. -/
def update (c : Conversation) (side : Side) (s : Speaker) : Conversation :=
  fun other ↦ if other = side then s else c other

@[simp]
theorem update_self (c : Conversation) (side : Side) (s : Speaker) : c.update side s side = s := by
  simp [update]

@[simp]
theorem update_other (c : Conversation) (side : Side) (s : Speaker) :
    c.update side s side.other = c side.other := by
  cases side <;> simp [update, Side.other]

/-- Sends a record to the other end. -/
def send (c : Conversation) (sender : Side) (r : Record) : Conversation :=
  let reader := c sender.other
  c.update sender.other { reader with inbound := reader.inbound ++ [r] }

/-- Opens a call of the next caller. -/
def openCall (s : Speaker) (callId : UInt32) (address : UInt64) : Speaker :=
  let (ticket, endpoint) := s.endpoint.openCall s.nextCaller
  let call := Record.call callId ticket address
  { s with
    endpoint
    nextCaller := s.nextCaller + 1
    asked := s.asked ++ [(s.nextCaller, call)]
    opened := s.opened ++ [call] }

/-- What a record does to the end that dispatches it. -/
def accept (s : Speaker) (r : Record) : Speaker :=
  match s.endpoint.dispatch r with
  | (.serve call, endpoint) => { s with endpoint, jobs := s.jobs ++ [call] }
  | (.arrive caller reply, endpoint) =>
    { s with endpoint, arrived := s.arrived ++ [(caller, reply)] }
  | (.free _, endpoint) | (.ignore _, endpoint) => { s with endpoint }

/-- A turn of one end, if it can be taken. -/
def step (c : Conversation) (side : Side) (turn : Turn) : Option Conversation :=
  let s := c side
  match turn with
  | .openCall callId address => some (c.update side (openCall s callId address))
  | .sendCall i => do
    let call ← s.opened[i]?
    return (c.update side { s with opened := s.opened.eraseIdx i }).send side call
  | .dispatch =>
    match s.inbound with
    | [] => none
    | r :: rest => some (c.update side (accept { s with inbound := rest } r))
  | .conclude i response => do
    let call ← s.jobs[i]?
    let (reply, endpoint) := s.endpoint.conclude call response
    return c.update side
      { s with endpoint, jobs := s.jobs.eraseIdx i, outbox := s.outbox ++ [reply] }
  | .sendReply i => do
    let reply ← s.outbox[i]?
    return (c.update side { s with outbox := s.outbox.eraseIdx i }).send side reply
  | .receive i => do
    let (caller, reply) ← s.arrived[i]?
    let call ← s.asked.lookup caller
    return c.update side { s with
      arrived := s.arrived.eraseIdx i
      views := s.views ++ [.ofReply call.callId reply] }
  | .release i => do
    let view ← s.views[i]?
    let c := c.update side { s with views := s.views.eraseIdx i }
    return match view.drop? with
      | some r => c.send side r
      | none => c

/-- Takes turns one after another, if all of them can be taken. -/
def run? (c : Conversation) (turns : List (Side × Turn)) : Option Conversation :=
  turns.foldlM (fun c (side, turn) ↦ c.step side turn) c

end Conversation

end RingCall
