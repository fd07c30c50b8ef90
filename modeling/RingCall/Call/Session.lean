import RingCall.Call.Endpoint
import RingCall.Call.Schedule
import RingCall.Ring.Owned

/-!
# Sessions

A session is two endpoints wired back to back. Each end reads its inbound ring with a consumer of
its own, which dispatches the records, and serves calls on a pool of workers. What one end sends
goes into the other's inbound ring. Requests and responses lie in one memory that both ends can
read.

A call runs until the session is settled: its record crosses the ring, a worker of the peer runs the
handler, and the reply comes back. The threads of each end take turns meanwhile in the order of its
schedule. A handler may call the other way, while its worker is taken. A call does not return at all
(`none`) if it is never served, because every worker is taken or the peer does not read its ring.

`Session.call` makes a call with a request and a response of given types; `Session.exchange` is a
call at the level of addresses, and leaves the response to be released by its caller.
-/

namespace RingCall

open Wire

/-- One end of a session at work. -/
structure Party where
  endpoint : Endpoint
  /-- The workers, whose jobs are calls to serve. -/
  pool : Pool Record
  /-- The ring that this end reads. -/
  inbound : Link Record
  /-- In which order the threads of this end take turns. -/
  schedule : Schedule

/-- The configuration of an end, the calls that it serves, and the order in which its threads take
turns. -/
structure Setup where
  config : Config
  registry : Registry
  schedule : Schedule := .inTurn

namespace Party

/-- Whether this end reads its ring. -/
def isRunning (p : Party) : Bool := p.inbound.reader.isLooping

/-- Starts an end that reads a ring. -/
def start (processors : Nat) (setup : Setup) (ring : Ring Record) : Except Error Party := do
  let config := setup.config
  config.check
  let endpoint ← Endpoint.new setup.registry config.shards
  let link := setup.schedule.link (Link.opened ring .quiet .quiet)
  return ⟨endpoint, .new (config.workerCount processors) config.depth.toNat,
    setup.schedule.link (link.start config.idle), setup.schedule⟩

/-- An end that does not read its ring. -/
def absent (ring : Ring Record) : Party where
  endpoint := ⟨.empty, .ofBits 0, .ofBits 0⟩
  pool := .new 1 1
  inbound := (Link.opened ring .quiet .quiet).settle
  schedule := .inTurn

end Party

/-- Two ends and their memory. -/
structure Session where
  left : Party
  right : Party
  heap : Heap
  /-- The replies that have come for callers. -/
  arrived : List (Nat × Record)
  /-- The number of the next caller. -/
  nextCaller : Nat
  reports : Array Report

/-- How a handler's own calls are made: at an end, of an id, with a request, for a response of a
type. -/
abbrev Calling :=
  Session → Side → UInt32 → (request : Ty) → request.Value → (response : Ty) →
    Option (Except Error response.Value × Session)

namespace Session

/-- A session of two ends in which nothing has happened. -/
def ofParties (left right : Party) : Session := ⟨left, right, .empty, [], 0, #[]⟩

/-- Wires two ends back to back. Each end's outbound ring has the size that the end is configured
with, and its memory is asked of an operating system. -/
def pair {σ : Type} (os : Shared.System σ) (processors : Nat) (left right : Setup) (s : σ) :
    Except Error Session := do
  let (toRight, s) := left.config.buildRing os Shared.Layout.record.extent s
  let toRight : OwnedRing Record ← toRight
  let (toLeft, _) := right.config.buildRing os Shared.Layout.record.extent s
  let toLeft : OwnedRing Record ← toLeft
  let l ← Party.start processors left toLeft.ring
  let r ← Party.start processors right toRight.ring
  return ofParties l r

/-- One of the two ends. -/
def party (s : Session) : Side → Party
  | .left => s.left
  | .right => s.right

/-- Replaces one of the two ends. -/
def setParty (s : Session) (side : Side) (p : Party) : Session :=
  match side with
  | .left => { s with left := p }
  | .right => { s with right := p }

/-- Adds a report. -/
def report (s : Session) (r : Report) : Session := { s with reports := s.reports.push r }

/-! ### Records on their way -/

/-- What a record does at the end that reads it. -/
def deliver (side : Side) (s : Session) (r : Record) : Session :=
  let p := s.party side
  match p.endpoint.dispatch r with
  | (.serve call, endpoint) =>
    s.setParty side { p with endpoint, pool := p.schedule.pool (p.pool.submit call) }
  | (.arrive caller reply, endpoint) =>
    { s with arrived := s.arrived ++ [(caller, reply)] }.setParty side { p with endpoint }
  | (.free reply, endpoint) =>
    { s with heap := s.heap.discard reply.placed }.setParty side { p with endpoint }
  | (.ignore report, endpoint) => (s.report report).setParty side { p with endpoint }

/-- Sends a record, lets the threads of the ring take turns, and delivers what was read from it. -/
def send (s : Session) (sender : Side) (r : Record) : Session :=
  let reader := sender.other
  let p := s.party reader
  let link := p.schedule.link (p.inbound.setProducer 0 (.asking (.push r)))
  let inbound := { link with handled := #[], reports := #[] }
  let s := { s with reports := s.reports ++ link.reports }.setParty reader { p with inbound }
  link.handled.foldl (deliver reader) s

/-! ### Serving -/

/-- Runs a handler's reaction to its end. Answers the value that it replies with, or that it
panicked. -/
def react (calling : Calling) (side : Side) :
    Reaction → Session → Option (Option ((t : Ty) × t.Value) × Session)
  | .reply t v, s => some (some ⟨t, v⟩, s)
  | .panic, s => some (none, s)
  | .call callId request v response resume, s => do
    let (answer, s) ← calling s side callId request v response
    react calling side (resume answer) s

/-- The response of an end to a call, stored in memory, if there is one. -/
def respond (calling : Calling) (s : Session) (side : Side) (call : Record) :
    Option (Option StoredReply × Session) :=
  match (s.party side).endpoint.registry.find? call.callId with
  | none => some (none, s.report (.noHandler call.callId))
  | some handler => do
    match ← react calling side (handler.react s.heap.memory call.address) s with
    | (none, s) => return (none, s.report (.handlerPanicked call.callId))
    | (some ⟨t, v⟩, s) =>
      let (placed, heap) := s.heap.store t v
      return (some ⟨.ofNat placed.refAddress, placed⟩, { s with heap })

/-- Serves a call that a worker has in hand: runs the handler, sends the reply, and lets the worker
go. -/
def serve (calling : Calling) (s : Session) (side : Side) (call : Record) : Option Session := do
  let worker ← (s.party side).pool.workers.findIdx? (·.job? == some call)
  let (response, s) ← s.respond calling side call
  let p := s.party side
  let (reply, endpoint) := p.endpoint.conclude call response
  let s := (s.setParty side { p with endpoint }).send side reply
  let p := s.party side
  return s.setParty side { p with pool := p.schedule.pool ((p.pool.finish? worker).getD p.pool) }

/-- Serves the calls that the workers of an end have in hand. One that is not answered stays
there. -/
def serveAll (calling : Calling) (s : Session) (side : Side) : Session :=
  (s.party side).pool.inHand.foldl (fun s call ↦ (s.serve calling side call).getD s) s

/-! ### Calling -/

/-- Opens a call and sends its record. Answers the caller's number and the record. -/
def openCall (s : Session) (side : Side) (callId : UInt32) (address : UInt64) :
    Nat × Record × Session :=
  let p := s.party side
  let caller := s.nextCaller
  let (ticket, endpoint) := p.endpoint.openCall caller
  let record := Record.call callId ticket address
  (caller, record,
    ({ s with nextCaller := caller + 1 }.setParty side { p with endpoint }).send side record)

/-- Takes the reply that has come for a caller. -/
def collect (s : Session) (caller : Nat) : Option (Record × Session) := do
  let reply ← s.arrived.lookup caller
  return (reply, { s with arrived := s.arrived.filter (·.1 != caller) })

/-- Lets the peer free a response. -/
def release (s : Session) (side : Side) (v : ReplyView) : Session :=
  match v.drop? with
  | some r => s.send side r
  | none => s

/-- A call with the request at an address. -/
def exchange (calling : Calling) (s : Session) (side : Side) (callId : UInt32) (address : UInt64) :
    Option (ReplyView × Session) := do
  let (caller, record, s) := s.openCall side callId address
  let s ← s.serve calling side.other record
  let (reply, s) ← s.collect caller
  return (.ofReply callId reply, s)

/-- Reads the response of a reply. -/
def read (s : Session) (v : ReplyView) (t : Ty) : Option t.Value :=
  (t.readAt s.heap.memory v.address.toNat).toOption

/-- A call with a request in memory of its own, which is freed afterwards. -/
def exchangeValue (calling : Calling) (s : Session) (side : Side) (callId : UInt32) (request : Ty)
    (v : request.Value) : Option (ReplyView × Session) := do
  let (placed, heap) := s.heap.store request v
  let (view, s) ← exchange calling { s with heap } side callId (.ofNat placed.refAddress)
  return (view, { s with heap := s.heap.discard placed })

/-- The end of a call whose reply has come: reads the response and lets the peer free it. An empty
reply means that the peer does not know the call. -/
def finish (s : Session) (side : Side) (v : ReplyView) (response : Ty) :
    Option (Except Error response.Value × Session) :=
  if v.isEmpty then some (.error (.unknownCall v.callId), s)
  else (s.read v response).map fun answer ↦ (.ok answer, s.release side v)

/-- A call of a handler's caller, below which calls are nested less than `depth` deep. -/
def callWithin : (depth : Nat) → Calling
  | 0, _, _, _, _, _, _ => none
  | depth + 1, s, side, callId, request, v, response => do
    let (view, s) ← exchangeValue (callWithin depth) s side callId request v
    s.finish side view response

/-- A bound on how deep calls can be nested, since each takes a worker. -/
def depth (s : Session) : Nat := s.left.pool.size + s.right.pool.size + 1

/-- Calls the peer and waits for the response. -/
def call : Calling := fun s ↦ callWithin s.depth s

/-- Calls the peer and keeps the reply. -/
def callRaw (s : Session) (side : Side) (callId : UInt32) (request : Ty) (v : request.Value) :
    Option (ReplyView × Session) :=
  exchangeValue (callWithin s.depth) s side callId request v

/-- A call with the request at an address. An empty reply answers nothing. -/
def callAt (s : Session) (side : Side) (callId : UInt32) (address : UInt64) (response : Ty) :
    Option (Option response.Value × Session) := do
  let (view, s) ← exchange (callWithin s.depth) s side callId address
  if view.isEmpty then return (none, s)
  else
    let answer ← s.read view response
    return (some answer, s.release side view)

/-- Takes the reports made since they were last taken. -/
def takeReports (s : Session) : List Report × Session :=
  (s.reports.toList, { s with reports := #[] })

end Session

end RingCall
