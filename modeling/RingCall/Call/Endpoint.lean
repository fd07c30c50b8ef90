import RingCall.Call.Handler
import RingCall.Failure.Report
import RingCall.Ring.Record
import RingCall.Slab.Sharded

/-!
# Endpoints

An endpoint is one end of a conversation of calls, replies and drops. It keeps two slabs.

* `pending` has an entry for each call that awaits its reply. The entry's handle is the call's
  ticket: the call record carries it and the reply repeats it.
* `stored` has an entry for each reply whose response the peer may still read. The entry's handle
  goes out with the reply and comes back in a drop.

`Endpoint.dispatch` is what one record does on arrival. It never blocks: a call is only passed on to
be served. `Endpoint.conclude` makes the reply to a call that was served.
-/

namespace RingCall

open Wire

/-- One of the two ends. -/
inductive Side where
  | left
  | right
  deriving DecidableEq, Repr

/-- The opposite end. -/
def Side.other : Side → Side
  | left => right
  | right => left

/-- A response that is kept until the peer drops it. -/
structure StoredReply where
  /-- The address that the reply carries. -/
  address : UInt64
  /-- The response in memory. -/
  placed : Placed

/-- One end of a conversation. Callers are known by number. -/
structure Endpoint where
  registry : Registry
  stored : ShardedSlab StoredReply
  pending : ShardedSlab Nat

/-- What follows from a record. -/
inductive Effect where
  /-- A call is to be served. -/
  | serve (call : Record)
  /-- A reply has come for a caller. -/
  | arrive (caller : Nat) (reply : Record)
  /-- A response is not needed any more. -/
  | free (reply : StoredReply)
  /-- Nothing, but for a report. -/
  | ignore (report : Report)

namespace Endpoint

/-- An endpoint whose slabs have the given number of shards. -/
def new (registry : Registry) (shards : UInt64) : Except Error Endpoint := do
  let stored ← ShardedSlab.new shards.toNat
  let pending ← ShardedSlab.new shards.toNat
  return ⟨registry, stored, pending⟩

/-- Opens a call for a caller. Answers the call's ticket. -/
def openCall (e : Endpoint) (caller : Nat) : UInt64 × Endpoint :=
  let (ticket, pending) := e.pending.push caller
  (ticket, { e with pending })

/-- What a record does on arrival. -/
def dispatch (e : Endpoint) (r : Record) : Effect × Endpoint :=
  match r.kind? with
  | some .call => (.serve r, e)
  | some .reply =>
    match e.pending.pop r.userData with
    | (some caller, pending) => (.arrive caller r, { e with pending })
    | (none, _) => (.ignore (.unknownReply r.callId r.userData), e)
  | some .drop =>
    match e.stored.pop r.userData with
    | (some reply, stored) => (.free reply, { e with stored })
    | (none, _) => (.ignore (.unknownDrop r.callId r.userData), e)
  | none => (.ignore (.unknownFlag r.flag), e)

/-- The reply to a call, whose response is stored if there is one. -/
def conclude (e : Endpoint) (call : Record) (response : Option StoredReply) : Record × Endpoint :=
  match response with
  | some reply =>
    let (handle, stored) := e.stored.push reply
    (.reply call.callId call.userData handle reply.address, { e with stored })
  | none => (.reply call.callId call.userData 0 0, e)

/-- The number of responses kept for the peer. -/
def storedReplies (e : Endpoint) : Nat := e.stored.len

/-- The number of calls that await their reply. -/
def pendingCalls (e : Endpoint) : Nat := e.pending.len

end Endpoint

/-- A reply as its caller sees it. The response can be read until the view is released. -/
structure ReplyView where
  callId : UInt32
  address : UInt64
  /-- What to give back; 0 if the reply is empty. -/
  handle : UInt64
  deriving DecidableEq, Repr

namespace ReplyView

/-- The view of a reply to a call of the given id. -/
def ofReply (callId : UInt32) (reply : Record) : ReplyView :=
  ⟨callId, reply.address, reply.next⟩

/-- Whether the peer had no answer. -/
def isEmpty (v : ReplyView) : Bool := v.handle == 0

/-- The drop that releases the response, if there is one. -/
def drop? (v : ReplyView) : Option Record :=
  if v.isEmpty then none else some (.drop v.callId v.handle)

end ReplyView

end RingCall
