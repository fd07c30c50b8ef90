import RingCall.Link.Settle

/-!
# Moves

Everything that can happen in a link, in any order: users make requests, start to read and ask the
threads to end, and each thread takes its steps. `Link.move?` says what a move does and when it can
be made, and `Link.moves?` makes moves one after another.
-/

namespace RingCall

variable {α : Type}

/-- What can happen in a link. -/
inductive Move (α : Type) where
  /-- A producer that is idle makes a request. -/
  | request (i : Nat) (request : Request α)
  /-- A producer goes on. -/
  | produce (i : Nat)
  /-- The drain thread goes on. -/
  | drain
  /-- A reader that is idle begins to take one record. -/
  | fetch
  /-- A reader that is idle becomes a consumer. -/
  | start (policy : IdlePolicy)
  /-- The reader goes on. -/
  | read
  /-- The consumer's handler goes on. -/
  | handle (quits panics : Bool)
  /-- The consumer is asked to end. -/
  | askToStop
  /-- The write end is closed. -/
  | close
  deriving DecidableEq, Repr

namespace Producer

/-- Whether a producer can make a request. -/
def isIdle : Producer α → Bool
  | idle _ => true
  | _ => false

theorem exists_of_isIdle {p : Producer α} (h : p.isIdle = true) : ∃ last, p = idle last := by
  cases p with
  | idle last => exact ⟨last, rfl⟩
  | asking | looking | rousing | waking | flagging | parking | checking | nudging => cases h

end Producer

namespace Reader

/-- Whether the read end can be used. -/
def isIdle : Reader α → Bool
  | away | popped _ => true
  | popping _ | looping _ _ | crashed => false

end Reader

namespace Link

/-- What a move does, if it can be made. -/
def move? (l : Link α) : Move α → Option (Link α)
  | .request i r => if (l.producers i).isIdle then some (l.setProducer i (.asking r)) else none
  | .produce i => l.stepProducer i
  | .drain => l.stepDrain
  | .fetch => if l.reader.isIdle then some { l with reader := .popping .taking } else none
  | .start policy => if l.reader.isIdle then some (l.start policy) else none
  | .read => l.stepReader
  | .handle quits panics => l.handle quits panics
  | .askToStop => some l.askToStop
  | .close => some l.close

/-- Makes moves one after another, if all of them can be made. -/
def moves? (l : Link α) (ms : List (Move α)) : Option (Link α) := ms.foldlM move? l

end Link

end RingCall
