import RingCall.Bytes
import RingCall.Shared.Partition

/-!
# A system in memory

`Store.system` is an operating system whose files are values: it keeps the files, the open
descriptors and the mappings. Names of files are not too long, sizes of files are not negative, and
mappings lie one behind the other, each from a page of its own on, as far as the address space goes.
-/

namespace RingCall.Shared

/-- A file's size and bytes. -/
structure File where
  size : Int64
  bytes : Nat → UInt8

/-- A file without bytes, in which zeros are read. -/
def File.blank : File := ⟨0, fun _ ↦ 0⟩

/-- Files, open descriptors and mappings. -/
structure Store where
  /-- The files, by their places. Where none was made yet there is a blank one. -/
  files : Nat → File
  /-- The place of the next file. -/
  nextFile : Nat
  /-- The open descriptors, each with the place of its file. -/
  handles : List (Int32 × Nat)
  /-- The number of the next descriptor. -/
  nextHandle : Nat
  /-- The addresses of the mappings, each with the place of its file. -/
  mappings : List (UInt64 × Nat)
  /-- The number of pages that were mapped. -/
  pages : Nat

namespace Store

/-- A store without files. The first descriptors belong to the standard streams. -/
def empty : Store := ⟨fun _ ↦ .blank, 0, [], 3, [], 0⟩

/-- The bytes of a page. -/
def pageSize : Nat := 4096

/-- The bytes that an address space has room for. -/
def addressSpace : Nat := 1 <<< 47

/-- The number of descriptors that can be told apart. -/
def handleLimit : Nat := 1 <<< 31

/-- The most bytes in the name of a file. -/
def nameLimit : Nat := 249

/-- Where the next mapping goes. The first page is left out. -/
def nextAddress (s : Store) : Nat := (s.pages + 1) * pageSize

/-- The place of the file behind a descriptor. -/
def place? (s : Store) (handle : Int32) : Option Nat := s.handles.lookup handle

/-- Changes one file. -/
def modifyFile (s : Store) (place : Nat) (f : File → File) : Store :=
  { s with files := fun i ↦ if i = place then f (s.files i) else s.files i }

/-- Opens a descriptor for a file. -/
def openHandle (s : Store) (place : Nat) : Except OsCode Int32 × Store :=
  if s.nextHandle < handleLimit then
    let handle : Int32 := .ofNat s.nextHandle
    (.ok handle,
      { s with handles := (handle, place) :: s.handles, nextHandle := s.nextHandle + 1 })
  else (.error .tooManyFiles, s)

/-- Maps a file behind the mappings that there are. -/
def addMapping (s : Store) (place : Nat) (size : UInt64) : Except OsCode UInt64 × Store :=
  if s.nextAddress + size.toNat ≤ addressSpace then
    let address : UInt64 := .ofNat s.nextAddress
    (.ok address, { s with
      mappings := (address, place) :: s.mappings
      pages := s.pages + roundUp size.toNat pageSize / pageSize })
  else (.error .outOfMemory, s)

/-- Opens a descriptor for a new file. -/
def openFile (s : Store) : Except OsCode Int32 × Store :=
  openHandle { s with nextFile := s.nextFile + 1 } s.nextFile

/-- A store as an operating system. What a counter counts is not kept. -/
def system : System Store where
  memfdCreate name s :=
    if name.length ≤ nameLimit then s.openFile else (.error .invalidArgument, s)
  ftruncate handle size s :=
    match s.place? handle with
    | none => (.error .badDescriptor, s)
    | some place =>
      if size < 0 then (.error .invalidArgument, s)
      else (.ok (), s.modifyFile place ({ · with size }))
  duplicate handle s :=
    match s.place? handle with
    | none => (.error .badDescriptor, s)
    | some place => s.openHandle place
  fstat handle s :=
    match s.place? handle with
    | none => .error .badDescriptor
    | some place => .ok (s.files place).size
  mmap handle size s :=
    match s.place? handle with
    | none => (.error .badDescriptor, s)
    | some place => if size = 0 then (.error .invalidArgument, s) else s.addMapping place size
  munmap address _ s := (.ok (), { s with mappings := s.mappings.filter (·.1 != address) })
  eventfd := openFile
  close handle s := { s with handles := s.handles.filter (·.1 != handle) }

/-- The place of a mapping's file. -/
def mapped? (s : Store) (m : Mapping) : Option Nat := s.mappings.lookup m.address

/-- The `n` bytes of a mapping from `offset` on, if all of them are mapped. -/
def read? (s : Store) (m : Mapping) (offset n : Nat) : Option (List UInt8) := do
  let place ← s.mapped? m
  if offset + n ≤ m.size.toNat then
    return (List.range n).map fun i ↦ (s.files place).bytes (offset + i)
  else none

/-- Writes bytes into a mapping from `offset` on, if there is room for all of them. -/
def write? (s : Store) (m : Mapping) (offset : Nat) (bytes : List UInt8) : Option Store := do
  let place ← s.mapped? m
  if offset + bytes.length ≤ m.size.toNat then
    let block := bytes.toArray
    let written (f : File) : File := { f with
      bytes := fun i ↦ if offset ≤ i then block.getD (i - offset) (f.bytes i) else f.bytes i }
    return s.modifyFile place written
  else none

/-- The fields of a ring's control block. -/
def control (s : Store) (p : Partition) : List Nat :=
  (Layout.control.offsets.zip [8, 8, 4, 4]).map fun (offset, width) ↦
    ((s.read? p.mapping offset width).map ofBytes).getD 0

end Store

end RingCall.Shared
