import RingCall.Call.Session
import RingCall.Ring.Descriptor

/-!
# Attaching from another runtime

The peer of a session may be another runtime, which knows words, addresses and status codes only. It
attaches to two rings by their descriptors (`attach`), with sizes from its environment and at most
one handler, and calls with the address of a request and a place for the response (`call`).

A handler of another runtime is told the call's id and the address of the request, and may write one
word as the response. If it writes none the response is 0.
-/

namespace RingCall.Foreign

open Wire

/-- What a call of another runtime comes to. -/
inductive Status where
  | success
  /-- An address that was needed is missing. -/
  | nullPointer
  | invalidArgument
  | allocationFailed
  | unknownCall
  | disconnected
  | internal
  deriving DecidableEq, Repr

namespace Status

/-- The number of a status. -/
def code : Status → Int
  | success => 0
  | nullPointer => -1
  | invalidArgument => -2
  | allocationFailed => -3
  | unknownCall => -4
  | disconnected => -5
  | internal => -6

/-- The status that an error comes to. -/
def ofError : Error → Status
  | .io _ => allocationFailed
  | .invalidCapacity _ | .invalidShardCount _ => invalidArgument
  | .unknownCall _ => unknownCall
  | .disconnected => disconnected
  | .unsupported _ => internal

end Status

/-- A handler of another runtime. Answers the word that it writes, if it writes one. -/
abbrev ForeignHandler := UInt32 → Memory → UInt64 → Option UInt64

/-- What a peer with at most one handler serves. -/
def registry : Option ForeignHandler → Registry
  | none => .empty
  | some h => Registry.empty.withFallback fun callId ↦
    ⟨.word, .word, fun m address ↦ .reply .word ((h callId m address).getD 0 : UInt64)⟩

/-- The configuration of a peer, its handler, and the order in which its threads take turns. -/
structure Peer where
  config : Config
  handler : Option ForeignHandler
  schedule : Schedule := .inTurn

/-- Starts the peer on the ring that it reads. -/
def Peer.start (processors : Nat) (peer : Peer) (inbound : Ring Record) : Except Report Party :=
  match Party.start processors ⟨peer.config, registry peer.handler, peer.schedule⟩ inbound with
  | .ok p => .ok p
  | .error e => .error (.endpointNotStarted e)

/-- Whether two descriptors can be attached to. One that is missing altogether is refused without a
report. -/
def checkDescriptors (inbound outbound : Option Descriptor) : Except (Option Report) Unit :=
  match inbound, outbound with
  | some inbound, some outbound =>
    match inbound.attach, outbound.attach with
    | .ok _, .ok _ => .ok ()
    | .error cause, _ | .ok _, .error cause => .error (some (.descriptorsRejected cause))
  | _, _ => .error none

/-- Attaches to the rings of two descriptors, the first of which describes the ring given. -/
def attach (processors : Nat) (peer : Peer) (inbound outbound : Option Descriptor)
    (ring : Ring Record) : Except (Option Report) Party := do
  checkDescriptors inbound outbound
  match peer.start processors ring with
  | .ok p => return p
  | .error report => throw (some report)

/-- A session whose right end is another runtime, if that has attached. -/
structure Connection where
  session : Session
  isAttached : Bool

/-- Makes two rings in memory that is asked of an operating system, lets the peer attach to them,
and starts the left end. The session goes on without the peer if that cannot attach. -/
def connect {σ : Type} (os : Shared.System σ) (processors : Nat) (left : Setup) (peer : Peer)
    (s : σ) : Except Error Connection := do
  let (outbound, s) := left.config.buildRing os Shared.Layout.record.extent s
  let outbound : OwnedRing Record ← outbound
  let (inbound, _) := left.config.buildRing os Shared.Layout.record.extent s
  let inbound : OwnedRing Record ← inbound
  let right := peer.start processors outbound.ring
  let l ← Party.start processors left inbound.ring
  match right with
  | .ok r => return ⟨.ofParties l r, true⟩
  | .error report => return ⟨(Session.ofParties l (.absent outbound.ring)).report report, false⟩

namespace Connection

/-- A call of the peer. The request is a word in memory, or missing; `out` is what the place for the
response holds, if there is such a place. Answers the status and what the place holds afterwards. -/
def call (c : Connection) (callId : UInt32) (request : Option UInt64) (out : Option UInt64) :
    Option (Status × Option UInt64 × Connection) :=
  match out with
  | none => some (.nullPointer, none, c)
  | some before =>
    if !c.isAttached then some (.nullPointer, some before, c)
    else do
      let s := c.session
      let (view, s) ← match request with
        | some v => s.callRaw .right callId .word v
        | none => Session.exchange (Session.callWithin s.depth) s .right callId 0
      if view.isEmpty then return (.unknownCall, some before, { c with session := s })
      else
        let answer ← s.read view .word
        return (.success, some answer, { c with session := s.release .right view })

/-- The number of responses that the peer keeps, as the peer is told it. -/
def storedReplies (c : Connection) : Int :=
  if c.isAttached then (c.session.right.endpoint.storedReplies : Int)
  else Status.nullPointer.code

end Connection

end RingCall.Foreign
