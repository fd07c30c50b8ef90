import RingCall.Failure.Error

/-!
# Reports

What the library tells an observer when something goes wrong that no caller is there to hear of: a
wakeup that could not be sent, a thread that ended early, a record that names nothing. A report has
a level, a text and named fields.
-/

namespace RingCall

/-- How serious a report is. -/
inductive Level where
  | warn
  | error
  deriving DecidableEq, Repr

/-- Something that went wrong behind the callers' backs. -/
inductive Report where
  /-- The consumer of a ring could not be woken. -/
  | consumerNotNotified (cause : IoError)
  /-- The overflow's drain thread could not be woken by a producer. -/
  | drainNotWoken (cause : IoError)
  /-- The overflow's drain thread could not be woken to end. -/
  | drainNotWokenToStop (cause : IoError)
  /-- The overflow's drain thread ended because it could not wait. -/
  | drainWaitFailed (cause : IoError)
  /-- The producer could not be told that there is room again. -/
  | producerNotNotified (cause : IoError)
  /-- A consumer ended because it could not wait. -/
  | readerWaitFailed (cause : IoError)
  /-- A consumer could not be woken to end. -/
  | readerNotWokenToStop (cause : IoError)
  /-- A consumer's handler panicked. -/
  | readerPanicked
  /-- A reply to a call that nobody waits for. -/
  | unknownReply (callId : UInt32) (userData : UInt64)
  /-- A release of a reply that is not held. -/
  | unknownDrop (callId : UInt32) (handle : UInt64)
  /-- A record of no known kind. -/
  | unknownFlag (flag : UInt32)
  /-- A call that nothing serves. -/
  | noHandler (callId : UInt32)
  /-- A call whose handler panicked. -/
  | handlerPanicked (callId : UInt32)
  /-- Ring descriptors from a peer that cannot be used. -/
  | descriptorsRejected (cause : IoError)
  /-- An endpoint that could not be started. -/
  | endpointNotStarted (cause : Error)
  deriving DecidableEq, Repr

namespace Report

/-- The value of a report's field. -/
inductive Field where
  | number (n : Nat)
  | text (s : String)
  deriving DecidableEq, Repr

/-- How serious a report is. -/
def level : Report → Level
  | drainWaitFailed _ | readerWaitFailed _ | readerPanicked | handlerPanicked _
  | descriptorsRejected _ | endpointNotStarted _ => .error
  | _ => .warn

/-- The text of a report. -/
def message : Report → String
  | consumerNotNotified _ => "failed to notify ring consumer"
  | drainNotWoken _ => "failed to wake ring drain thread"
  | drainNotWokenToStop _ => "failed to wake ring drain thread for shutdown"
  | drainWaitFailed _ => "ring drain thread failed to wait"
  | producerNotNotified _ => "failed to notify unstuck producer"
  | readerWaitFailed _ => "ring reader failed to wait for work"
  | readerNotWokenToStop _ => "failed to wake ring reader for shutdown"
  | readerPanicked => "ring reader panicked"
  | unknownReply _ _ => "reply for unknown pending call"
  | unknownDrop _ _ => "drop for unknown slab handle"
  | unknownFlag _ => "unknown record flag"
  | noHandler _ => "no handler registered, replying empty"
  | handlerPanicked _ => "handler panicked, replying empty"
  | descriptorsRejected _ => "rejected queue descriptors"
  | endpointNotStarted _ => "failed to start endpoint"

/-- The named fields of a report. -/
def fields : Report → List (String × Field)
  | consumerNotNotified cause | drainNotWoken cause | drainNotWokenToStop cause
  | drainWaitFailed cause | producerNotNotified cause | readerWaitFailed cause
  | readerNotWokenToStop cause | descriptorsRejected cause => [("error", .text cause.message)]
  | readerPanicked => []
  | unknownReply callId userData =>
    [("call_id", .number callId.toNat), ("user_data", .number userData.toNat)]
  | unknownDrop callId handle =>
    [("call_id", .number callId.toNat), ("handle", .number handle.toNat)]
  | unknownFlag flag => [("flag", .number flag.toNat)]
  | noHandler callId | handlerPanicked callId => [("call_id", .number callId.toNat)]
  | endpointNotStarted cause => [("error", .text cause.message)]

end Report

end RingCall
