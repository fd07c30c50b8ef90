import RingCall.Failure.OsCode

/-!
# Errors

`IoError` says what went wrong with memory and descriptors, `Error` what the ring transport and the
dispatch of calls report. Each cause is a constructor with the numbers that its text names; the kind
that a cause is filed under and its wording follow from it.
-/

namespace RingCall

/-- A failure of the system or of what was asked of it. -/
inductive IoError where
  /-- The operating system reported a number. -/
  | os (code : OsCode)
  /-- A failure known by its text alone. -/
  | other (text : String)
  /-- A ring with no slots. -/
  | emptyRing
  /-- Records that must be aligned more strictly than a ring's buffer is. -/
  | alignment (bytes : Nat)
  /-- A ring whose size in bytes is not a machine word. -/
  | ringOverflow (capacity recordSize : Nat)
  /-- The memory of a ring could not be made. -/
  | ringMemory (capacity recordSize : Nat) (cause : IoError)
  /-- A shared region of no bytes. -/
  | emptyRegion
  /-- A name for a shared region that holds a NUL byte. -/
  | nulInName (position : Nat)
  /-- A shared region smaller than was agreed. -/
  | regionTooSmall (expected actual : Nat)
  /-- A mapping without an address. -/
  | nullMapping
  /-- The memory of a ring that does not start with a cache line. -/
  | misaligned
  /-- A ring descriptor with a missing address. -/
  | nullAddress
  deriving DecidableEq, Repr

namespace IoError

/-- The kind that a failure is filed under. The failure to make a ring's memory is of the kind of
its cause. -/
def kind : IoError → IoKind
  | os code => code.kind
  | other _ | nullMapping => .other
  | ringMemory _ _ cause => cause.kind
  | regionTooSmall _ _ | misaligned => .invalidData
  | emptyRing | alignment _ | ringOverflow _ _ | emptyRegion | nulInName _ | nullAddress =>
    .invalidInput

/-- The text of a failure. -/
def message : IoError → String
  | os code => s!"{code.text} (os error {code.number})"
  | other text => text
  | emptyRing => "ring capacity must be at least 1"
  | alignment bytes => s!"record alignment {bytes} exceeds 128"
  | ringOverflow capacity recordSize =>
    s!"ring of {capacity} records of {recordSize} bytes overflows"
  | ringMemory capacity recordSize cause =>
    s!"Failed to create ring memory:\n├─ Capacity:    {capacity}\n├─ Record size: {recordSize}\n" ++
      s!"╰─ Error: {cause.message}"
  | emptyRegion => "shared memory region must not be empty"
  | nulInName position =>
    s!"invalid shared memory name: nul byte found in provided data at position: {position}"
  | regionTooSmall expected actual =>
    s!"Shared memory too small: expected at least {expected}, got {actual}"
  | nullMapping => "mmap returned a null mapping"
  | misaligned => "Shared memory not properly aligned"
  | nullAddress => "queue meta carries a null address"

/-- A descriptor that is not open. -/
def badDescriptor : IoError := os .badDescriptor

end IoError

/-- An error of the ring transport or of the dispatch of calls. -/
inductive Error where
  /-- A failure of the system underneath. -/
  | io (cause : IoError)
  /-- A ring capacity of zero. -/
  | invalidCapacity (capacity : Nat)
  /-- A number of slab shards that is not a power of two. -/
  | invalidShardCount (shards : Nat)
  /-- The peer had no answer to a call. -/
  | unknownCall (callId : UInt32)
  /-- The other end is gone. -/
  | disconnected
  /-- Something that is not offered. -/
  | unsupported (what : String)
  deriving DecidableEq, Repr

namespace Error

/-- The text of an error. -/
def message : Error → String
  | io cause => s!"I/O error: {cause.message}"
  | invalidCapacity capacity => s!"invalid ring capacity {capacity}: must be at least 1"
  | invalidShardCount shards =>
    s!"invalid slab shard count {shards}: must be a non-zero power of two"
  | unknownCall callId => s!"no handler registered for call id {callId}"
  | disconnected => "peer or worker pool disconnected"
  | unsupported what => s!"unsupported: {what}"

/-- The failure that an error was caused by, if it was caused by another one. -/
def source? : Error → Option IoError
  | io cause => some cause
  | _ => none

end Error

end RingCall
