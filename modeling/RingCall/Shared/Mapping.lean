import RingCall.Failure.Error
import RingCall.Shared.Layout
import RingCall.Shared.System
import RingCall.Text.Utf8

/-!
# Shared memory

Memory that two processes share is a mapped file. It is either made (`System.create`), or it is the
file behind a descriptor that came from the other process (`System.attach`). Any number of mappings
show the same bytes. Each has a descriptor of its own, which is closed again if anything fails once
it is open.
-/

namespace RingCall.Shared

/-- A mapped file. -/
structure Mapping where
  /-- Where the file's bytes are. -/
  address : UInt64
  /-- The number of mapped bytes. -/
  size : UInt64
  /-- The descriptor that belongs to the mapping. -/
  handle : Int32
  deriving DecidableEq, Repr

/-- A size rounded up to whole cache lines. A sum that is no word wraps around. -/
def alignRegion (size : UInt64) : UInt64 := (size + 127) &&& ~~~127

/-- The name that a file gets if it is given none. -/
def defaultName : String := "memcall_ring"

namespace System

variable {σ : Type}

/-- Maps the file behind a descriptor. The mapping must have an address. -/
def mapFile (os : System σ) (handle : Int32) (size : UInt64) (s : σ) : Except IoError UInt64 × σ :=
  match os.mmap handle size s with
  | (.error code, s) => (.error (.os code), s)
  | (.ok address, s) => if address = 0 then (.error .nullMapping, s) else (.ok address, s)

/-- Makes a file of at least `size` bytes and maps it. Its name is text without NUL. -/
def create (os : System σ) (size : UInt64) (name : Option String) (s : σ) :
    Except IoError Mapping × σ :=
  if size = 0 then (.error .emptyRegion, s)
  else
    let size := alignRegion size
    let name := Text.utf8 (name.getD defaultName)
    match name.findIdx? (· == 0) with
    | some position => (.error (.nulInName position), s)
    | none =>
      match os.memfdCreate name s with
      | (.error code, s) => (.error (.os code), s)
      | (.ok handle, s) =>
        match os.ftruncate handle size.toInt64 s with
        | (.error code, s) => (.error (.os code), os.close handle s)
        | (.ok (), s) =>
          match os.mapFile handle size s with
          | (.error e, s) => (.error e, os.close handle s)
          | (.ok address, s) => (.ok ⟨address, size, handle⟩, s)

/-- Maps the file behind a descriptor, which must hold as many bytes as are expected. The descriptor
stays with its owner. -/
def attach (os : System σ) (handle : Int32) (expected : UInt64) (s : σ) :
    Except IoError Mapping × σ :=
  match os.duplicate handle s with
  | (.error code, s) => (.error (.os code), s)
  | (.ok own, s) =>
    match os.fstat own s with
    | .error code => (.error (.os code), os.close own s)
    | .ok size =>
      let actual := size.toUInt64
      if actual < expected ∨ actual = 0 then
        (.error (.regionTooSmall expected.toNat actual.toNat), os.close own s)
      else
        match os.mapFile own actual s with
        | (.error e, s) => (.error e, os.close own s)
        | (.ok address, s) => (.ok ⟨address, actual, own⟩, s)

/-- Ends a mapping and closes its descriptor. Answers what the system says about ending it. -/
def unmap (os : System σ) (m : Mapping) (s : σ) : Except OsCode Unit × σ :=
  let (answer, s) := os.munmap m.address m.size s
  (answer, os.close m.handle s)

end System

end RingCall.Shared
