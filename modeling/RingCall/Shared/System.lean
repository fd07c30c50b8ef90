import RingCall.Failure.OsCode

/-!
# The operating system

What rings ask of the operating system: files without a name in any directory, descriptors for them,
mappings, which make a file's bytes addressable, and the counters by which one end wakes the other.
A `System` answers, in states of a type. Whatever it is asked for it may refuse, with an error
number.
-/

namespace RingCall.Shared

/-- An operating system, in states of a type. -/
structure System (σ : Type) where
  /-- `memfd_create`: opens a descriptor for a new file without bytes. -/
  memfdCreate (name : List UInt8) : σ → Except OsCode Int32 × σ
  /-- `ftruncate`: gives the file behind a descriptor a size. -/
  ftruncate (handle : Int32) (size : Int64) : σ → Except OsCode Unit × σ
  /-- `fcntl` with `F_DUPFD_CLOEXEC`: opens another descriptor for a file. -/
  duplicate (handle : Int32) : σ → Except OsCode Int32 × σ
  /-- `fstat`: tells the size of the file behind a descriptor. -/
  fstat (handle : Int32) : σ → Except OsCode Int64
  /-- `mmap`: maps so many bytes of the file behind a descriptor, and tells where. -/
  mmap (handle : Int32) (size : UInt64) : σ → Except OsCode UInt64 × σ
  /-- `munmap`: ends a mapping. -/
  munmap (address size : UInt64) : σ → Except OsCode Unit × σ
  /-- `eventfd`: opens a descriptor for a new counter. -/
  eventfd : σ → Except OsCode Int32 × σ
  /-- `close`: closes a descriptor. -/
  close (handle : Int32) : σ → σ

end RingCall.Shared
