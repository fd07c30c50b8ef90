import RingCall.Text.Listing

/-!
# Records

What crosses a ring: records of five words. A call carries the address of a request, a reply the
address of a response and a handle under which the response is kept, and a drop gives such a handle
back. The flags of a record say which of the three it is; other flags mean nothing.
-/

namespace RingCall

/-- A record of the ring. -/
structure Record where
  /-- The address of a request or a response. -/
  address : UInt64 := 0
  /-- A tag of the caller's choice, which a reply repeats; in a drop, the handle given back. -/
  userData : UInt64 := 0
  /-- In a reply, the handle to give back in a drop; 0 if there is nothing to give back. -/
  next : UInt64 := 0
  /-- Which handler is called. -/
  callId : UInt32 := 0
  /-- What the record carries: a request, a response, the wish for a reply, the end of a loan. -/
  flag : UInt32 := 0
  deriving DecidableEq, Repr

instance : Inhabited Record := ⟨{}⟩

/-- What a record does. -/
inductive RecordKind where
  | call
  | reply
  | drop
  deriving DecidableEq, Repr

namespace RecordKind

/-- The flags of a kind: bit 0 for a request, bit 1 for a response, bit 2 for a reply wanted, bit 3
for the end of the loan of what was sent before. -/
def flag : RecordKind → UInt32
  | call => 0b0101
  | reply => 0b1110
  | drop => 0b1000

/-- The kind with the given flags. -/
def ofFlag? (flag : UInt32) : Option RecordKind :=
  [call, reply, drop].find? fun k ↦ k.flag == flag

theorem ofFlag?_flag (k : RecordKind) : ofFlag? k.flag = some k := by cases k <;> rfl

end RecordKind

namespace Record

def call (callId : UInt32) (userData address : UInt64) : Record where
  address := address
  userData := userData
  callId := callId
  flag := RecordKind.call.flag

def reply (callId : UInt32) (userData next address : UInt64) : Record where
  address := address
  userData := userData
  next := next
  callId := callId
  flag := RecordKind.reply.flag

def drop (callId : UInt32) (handle : UInt64) : Record where
  userData := handle
  callId := callId
  flag := RecordKind.drop.flag

/-- What a record does, if its flags mean anything. -/
def kind? (r : Record) : Option RecordKind := RecordKind.ofFlag? r.flag

/-- What is shown of a record. -/
def listing (r : Record) : Text.Listing where
  name := "Payload"
  fields := [("ptr", .ofNat r.address.toNat), ("user_data", .ofNat r.userData.toNat),
    ("next_user_data", .ofNat r.next.toNat), ("call_id", .ofNat r.callId.toNat),
    ("flag", .ofNat r.flag.toNat)]

end Record

end RingCall
