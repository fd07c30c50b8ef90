/-!
# The call gate

Calls into functions of unknown stack usage. An isolated call runs its callee on a stack kept for
this purpose, one for each thread, while a native call runs it on the stack in use. Callees may make
calls themselves. An isolated call that finds the kept stack taken runs its callee where it is, so
that no live frame is overwritten, and it leaves the stack to the call that took it.

A thread's only memory of this is a flag that says whether the kept stack is taken.
-/

namespace RingCall.Gate

/-- The bytes of the stack that is kept for isolated calls. -/
def stackSize : Nat := 256 * 1024

/-- How a function is entered. -/
inductive Entry where
  /-- On the stack kept for this purpose. -/
  | isolated
  /-- On the stack in use. -/
  | native
  deriving DecidableEq, Repr

/-- A stack that a function runs on. -/
inductive Stack where
  /-- The thread's own. -/
  | own
  /-- The one kept for isolated calls. -/
  | kept
  deriving DecidableEq, Repr

/-- The arguments of a call: at most three words. -/
inductive Arguments where
  | zero
  | one (a : UInt64)
  | two (a b : UInt64)
  | three (a b c : UInt64)
  deriving DecidableEq, Repr

namespace Arguments

def toList : Arguments → List UInt64
  | zero => []
  | one a => [a]
  | two a b => [a, b]
  | three a b c => [a, b, c]

/-- The arguments in a list, if it is not too long. -/
def ofList? : List UInt64 → Option Arguments
  | [] => some zero
  | [a] => some (one a)
  | [a, b] => some (two a b)
  | [a, b, c] => some (three a b c)
  | _ => none

/-- The argument registers of a call. Those without an argument hold 0. -/
structure Registers where
  first : UInt64 := 0
  second : UInt64 := 0
  third : UInt64 := 0
  deriving DecidableEq, Repr

/-- The registers that a call passes its arguments in. -/
def registers : Arguments → Registers
  | zero => {}
  | one a => ⟨a, 0, 0⟩
  | two a b => ⟨a, b, 0⟩
  | three a b c => ⟨a, b, c⟩

/-- What a callee that takes as many arguments as these finds in its registers. -/
def received (shape : Arguments) (r : Registers) : Arguments :=
  match shape with
  | zero => zero
  | one _ => one r.first
  | two _ _ => two r.first r.second
  | three _ _ _ => three r.first r.second r.third

end Arguments

/-- A call, and the calls that its callee makes one after another. -/
inductive Call where
  | mk (entry : Entry) (args : Arguments) (inner : List Call)
  deriving Repr

instance : Inhabited Call := ⟨.mk .native .zero []⟩

/-- What a callee saw: its arguments, the stack it ran on, and what the callees of its own calls
saw. -/
inductive Visit where
  | mk (args : Arguments) (stack : Stack) (inner : List Visit)
  deriving Repr

/-- What a thread knows about its stacks. -/
structure Thread where
  /-- The stack in use. -/
  current : Stack
  /-- Whether the kept stack is taken. -/
  taken : Bool
  deriving DecidableEq, Repr

namespace Thread

/-- A thread that has made no call. -/
def fresh : Thread := ⟨.own, false⟩

/-- Takes the kept stack, unless it is taken already. -/
def acquire (t : Thread) : Option Thread :=
  if t.taken then none else some ⟨.kept, true⟩

/-- Goes back to the stack of the caller, and gives the kept stack back. -/
def release (t : Thread) (caller : Stack) : Thread := { t with current := caller, taken := false }

/-- Runs a callee on the stack in use. Its body is the calls that it makes. -/
def enter (t : Thread) (args : Arguments) (body : Thread → List Visit × Thread) : Visit × Thread :=
  let (visits, after) := body t
  (.mk args t.current visits, after)

mutual

/-- Makes a call. -/
def call : Call → Thread → Visit × Thread
  | .mk entry args inner, t =>
    let args := args.received args.registers
    match entry, t.acquire with
    | .isolated, some switched =>
      let (visit, after) := switched.enter args (callAll inner)
      (visit, after.release t.current)
    | _, _ => t.enter args (callAll inner)
termination_by structural c => c

/-- Makes calls one after another. -/
def callAll : List Call → Thread → List Visit × Thread
  | [], t => ([], t)
  | c :: rest, t =>
    let (visit, t) := call c t
    let (visits, t) := callAll rest t
    (visit :: visits, t)
termination_by structural cs => cs

end

end Thread

end RingCall.Gate
