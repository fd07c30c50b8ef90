import RingCall.Link.Settle

/-!
# Channels

A channel is a link as its users see it: writers that come and go, parked records to wait for,
single pops, and a consumer whose handler works under permits. Whatever is asked of a channel, its
threads then settle.

A writer has a number and numbers are never used twice. The last writer to go takes the drain thread
with it.

A consumer's handler waits for a permit before each record. It may be told to ask its own consumer
to end at a certain record, or to panic at one.
-/

namespace RingCall

/-- What a consumer's handler may do. -/
structure Conduct (α : Type) where
  /-- How many records may still be handled; any number if there is none. -/
  permits : Option Nat
  /-- The record at which the handler asks its own consumer to end. -/
  quitAt : Option α
  /-- The record at which the handler panics. -/
  panicAt : Option α
  /-- Whether the consumer can still be asked to end. -/
  isGuarded : Bool
  deriving DecidableEq, Repr

/-- A link and its users. -/
structure Channel (α : Type) where
  link : Link α
  /-- The live writers. -/
  writers : List Nat
  /-- The number of the next writer. -/
  nextWriter : Nat
  /-- The ticket of the next parked record that is waited for. -/
  nextTicket : Nat
  /-- How the last consumer that was started conducts itself. -/
  conduct : Option (Conduct α)

namespace Channel

variable {α : Type} [DecidableEq α]

/-- Whether a handler may handle the record in its hand. -/
def mayHandle (c : Conduct α) : Bool := c.permits != some 0

/-- The handler's work on the record in its hand, if it has a permit. -/
def handle (c : Channel α) : Option (Channel α) := do
  let conduct ← c.conduct
  let item ← c.link.reader.inHand?
  if !mayHandle conduct then none
  else
    let quits := conduct.isGuarded && conduct.quitAt == some item
    let link ← c.link.handle quits (conduct.panicAt == some item)
    let conduct : Conduct α :=
      { conduct with
        permits := conduct.permits.map (· - 1)
        isGuarded := conduct.isGuarded && !quits }
    return { c with link, conduct := some conduct }

/-- One step of a thread of the channel. -/
def advance (c : Channel α) : Option (Channel α) :=
  match c.link.advance with
  | some link => some { c with link }
  | none => c.handle

/-- Lets the threads go on until the channel is settled. -/
def settle (c : Channel α) : Channel α := runSteps advance c.link.effort c

/-- A channel with one writer, on a ring and its signals. -/
def ofRing (ring : Ring α) (wake room : Signal) : Channel α :=
  settle ⟨.opened ring wake room, [0], 1, 0, none⟩

/-! ### Writing -/

/-- Makes a request of a writer. -/
def request (c : Channel α) (writer : Nat) (r : Request α) : Option Outcome × Channel α :=
  let (outcome, link) := c.link.request writer r
  (outcome, settle { c with link })

/-- Sends a record. Answers whether it went into the ring at once. -/
def push (c : Channel α) (writer : Nat) (item : α) : Bool × Channel α :=
  let (outcome, c) := c.request writer (.push item)
  (outcome == some .stored, c)

/-- Sends a record without waking the consumer. Answers whether it went into the ring at once. -/
def pushQuietly (c : Channel α) (writer : Nat) (item : α) : Bool × Channel α :=
  let (outcome, c) := c.request writer (.pushQuietly item)
  (outcome == some .stored, c)

/-- Sends a record. Answers a ticket if the record is parked. -/
def pushAwaited (c : Channel α) (writer : Nat) (item : α) : Option Nat × Channel α :=
  let (outcome, c) := c.request writer (.pushAwaited item c.nextTicket)
  (if outcome == some .stored then none else some c.nextTicket,
    { c with nextTicket := c.nextTicket + 1 })

/-- Wakes the consumer if it is not at work. Answers whether it was woken. -/
def notify (c : Channel α) (writer : Nat) : Bool × Channel α :=
  let (outcome, c) := c.request writer .notify
  (outcome == some .notified, c)

/-- Sends records without waking the consumer, and then wakes it. -/
def batch (c : Channel α) (writer : Nat) (items : List α) : List Bool × Bool × Channel α :=
  let (direct, c) := items.foldl (fun (direct, c) item ↦
    let (d, c) := pushQuietly c writer item
    (direct ++ [d], c)) (([] : List Bool), c)
  (direct, c.notify writer)

/-- Adds a writer and answers its number. -/
def addWriter (c : Channel α) : Nat × Channel α :=
  (c.nextWriter,
    { c with writers := c.writers ++ [c.nextWriter], nextWriter := c.nextWriter + 1 })

/-- Opens the write end again, for a new writer. Answers the writer's number. -/
def reopen (c : Channel α) : Nat × Channel α :=
  let (n, c) := { c with link := c.link.reopen }.addWriter
  (n, c.settle)

/-- Drops a writer. Answers whether it was live. -/
def dropWriter (c : Channel α) (writer : Nat) : Bool × Channel α :=
  if !c.writers.contains writer then (false, c)
  else
    let c := { c with writers := c.writers.erase writer }
    if !c.writers.isEmpty then (true, c)
    else
      let c := settle { c with link := c.link.close }
      (true, { c with link := { c.link with overflow := [] } })

/-! ### Reading -/

/-- Takes a record. -/
def pop (c : Channel α) : Option α × Channel α :=
  let (got, link) := c.link.pop
  (got, settle { c with link })

/-- Takes records one by one until there are none, at most `n` of them. -/
def popAll : Nat → Channel α → List α × Channel α
  | 0, c => ([], c)
  | n + 1, c =>
    match c.pop with
    | (none, c) => ([], c)
    | (some item, c) =>
      let (items, c) := popAll n c
      (item :: items, c)

/-- Starts a consumer. -/
def start (c : Channel α) (policy : IdlePolicy) (conduct : Conduct α) : Channel α :=
  settle { c with link := c.link.start policy, conduct := some conduct }

/-- Hands out permits. -/
def permit (c : Channel α) (n : Nat) : Channel α :=
  settle { c with conduct := c.conduct.map fun d ↦ { d with permits := d.permits.map (· + n) } }

/-- Lets the handler handle whatever there is, and then ends the consumer, if it has not been asked
to end before. -/
def stop (c : Channel α) : Channel α :=
  let c := settle { c with conduct := c.conduct.map fun d ↦ { d with permits := none } }
  if !c.conduct.any (·.isGuarded) then c
  else
    let c := settle { c with
      link := c.link.askToStop
      conduct := c.conduct.map fun d ↦ { d with isGuarded := false } }
    match c.link.reader with
    | .crashed => { c with link := { c.link.report .readerPanicked with reader := .away } }
    | _ => c

/-! ### Looking -/

/-- The number of parked records, while there is a writer. -/
def pending? (c : Channel α) : Option Nat :=
  if c.writers.isEmpty then none else some c.link.overflow.length

/-- Overwrites the working flag. Answers its old value. -/
def setWorking (c : Channel α) (flag : UInt32) : UInt32 × Channel α :=
  let control := c.link.ring.control
  (control.working, { c with link := { c.link with
    ring := { c.link.ring with control := { control with working := flag } } } })

/-- Takes the notifications that the consumer has not seen. -/
def takeSignals (c : Channel α) : Nat × Channel α :=
  (c.link.wake.pending, { c with link := { c.link with wake := c.link.wake.wait.2 } })

/-- Takes the records handled and the reports made since they were last taken. -/
def takeNews (c : Channel α) : List α × List Report × Channel α :=
  (c.link.handled.toList, c.link.reports.toList,
    { c with link := { c.link with handled := #[], reports := #[] } })

end Channel

end RingCall
