import RingCall.Call.Session

/-!
# Outposts

An outpost is an endpoint whose peer is played by hand: whoever plays it sends any records to the
endpoint, and sees the records that the endpoint sends. The endpoint's callers wait meanwhile, and a
caller whose reply has come reads a word as its response.

Requests and responses are words.
-/

namespace RingCall

open Wire

/-- A caller whose reply has not come. -/
structure Waiting where
  caller : Nat
  callId : UInt32
  request : Placed

/-- A record that an endpoint sent, and the word at its address. -/
structure Sent where
  record : Record
  /-- Missing if the record has no address. -/
  value : Option UInt64
  deriving DecidableEq, Repr

/-- An endpoint whose peer is played by hand. -/
structure Outpost where
  session : Session
  waiting : List Waiting

namespace Outpost

/-- The side of the endpoint. Its peer is the other side. -/
def here : Side := .left

/-- Starts an endpoint between two rings of a size. -/
def start (processors : Nat) (setup : Setup) (ring : Ring Record) : Except Error Outpost := do
  let p ← Party.start processors setup ring
  return ⟨.ofParties p (.absent ring), []⟩

/-- The endpoint. -/
def endpoint (o : Outpost) : Endpoint := (o.session.party here).endpoint

/-- The word at the address of a record. -/
def valueOf (s : Session) (r : Record) : Option UInt64 :=
  if r.address = 0 then none else (Ty.word.readAt s.heap.memory r.address.toNat).toOption

/-- Takes the records that the endpoint has sent. -/
def takeSent (o : Outpost) : List Sent × Outpost :=
  let peer := here.other
  let p := o.session.party peer
  let (records, inbound) := p.inbound.popAll
  (records.map fun r ↦ ⟨r, valueOf o.session r⟩,
    { o with session := o.session.setParty peer { p with inbound } })

/-- Starts a call of the endpoint. Answers the caller's number and what the endpoint sent. -/
def call (o : Outpost) (callId : UInt32) (request : UInt64) : Nat × List Sent × Outpost :=
  let (placed, heap) := o.session.heap.store .word request
  let (caller, _, session) :=
    Session.openCall { o.session with heap } here callId (.ofNat placed.refAddress)
  let (sent, o) := takeSent ⟨session, o.waiting ++ [⟨caller, callId, placed⟩]⟩
  (caller, sent, o)

/-- The answer to a caller whose reply has come. -/
def finish? (s : Session) (w : Waiting) : Option (Except Error UInt64 × Session) := do
  let (reply, s) ← s.collect w.caller
  let (answer, s) ← s.finish here (.ofReply w.callId reply) .word
  return (answer, { s with heap := s.heap.discard w.request })

/-- Lets the callers go on whose reply has come. Answers what each of them got. -/
def resume (o : Outpost) : List (Nat × Except Error UInt64) × Outpost :=
  o.waiting.foldl (fun (done, o) w ↦
    match finish? o.session w with
    | none => (done, o)
    | some (answer, session) =>
      (done ++ [(w.caller, answer)], ⟨session, o.waiting.filter (·.caller != w.caller)⟩)) ([], o)

/-- Sends the endpoint a record with the address of a word, and lets the endpoint serve it if it is
a call. Answers what the endpoint sent and which of its calls have come to an end. -/
def receive (o : Outpost) (r : Record) (content : UInt64) :
    List Sent × List (Nat × Except Error UInt64) × Outpost :=
  let (placed, heap) := o.session.heap.store .word content
  let r := { r with address := .ofNat placed.refAddress }
  let s := Session.send { o.session with heap } here.other r
  let s := s.serveAll (Session.callWithin s.depth) here
  let (done, o) := resume { o with session := s }
  let (sent, o) := o.takeSent
  (sent, done, { o with session := { o.session with heap := o.session.heap.discard placed } })

end Outpost

end RingCall
