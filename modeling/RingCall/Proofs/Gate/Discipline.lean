import RingCall.Gate.Call

/-!
# Which stack a callee runs on

A callee runs on the kept stack exactly if it was entered on it, or one of the callees around it
was, however calls are nested and whatever calls were made before (`Thread.discipline`). The flag of
a thread is set just as long as such a callee runs: it is the outermost isolated call that takes the
kept stack, and the same call gives it back, while those inside neither switch nor give back
anything.

All of this follows from one fact. Before and after each call, the flag of a thread says what its
stack says (`Thread.on`), and a call leaves both as they were (`Thread.snd_call`).
-/

namespace RingCall.Gate

namespace Call

def entry : Call → Entry
  | .mk entry _ _ => entry

def args : Call → Arguments
  | .mk _ args _ => args

/-- The calls that the callee makes. -/
def inner : Call → List Call
  | .mk _ _ inner => inner

end Call

namespace Visit

def args : Visit → Arguments
  | .mk args _ _ => args

def stack : Visit → Stack
  | .mk _ stack _ => stack

/-- What the callees of the callee's calls saw. -/
def inner : Visit → List Visit
  | .mk _ _ inner => inner

end Visit

/-- The callee at a path: how it and the callees around it were entered, the outermost first, and
its arguments. A path has the places of the calls that lead to the callee, each among those of its
caller. -/
def callee? : List Call → List Nat → Option (List Entry × Arguments)
  | _, [] => none
  | calls, [i] => calls[i]?.map fun c ↦ ([c.entry], c.args)
  | calls, i :: j :: path =>
    calls[i]?.bind fun c ↦
      (callee? c.inner (j :: path)).map fun (entries, args) ↦ (c.entry :: entries, args)

/-- What the callee at a path saw. -/
def seen? : List Visit → List Nat → Option (Arguments × Stack)
  | _, [] => none
  | visits, [i] => visits[i]?.map fun v ↦ (v.args, v.stack)
  | visits, i :: j :: path => visits[i]?.bind fun v ↦ seen? v.inner (j :: path)

/-- Callees find their arguments in the registers. -/
theorem Arguments.received_registers (args : Arguments) : args.received args.registers = args := by
  match args with
  | .zero | .one _ | .two _ _ | .three _ _ _ => rfl

namespace Stack

/-- The stack in use after functions were entered from one another, the first of them from a
stack. -/
def through (s : Stack) (entries : List Entry) : Stack :=
  if .isolated ∈ entries then .kept else s

/-- One entry after the other leads from stack to stack. -/
theorem through_cons (s : Stack) (e : Entry) (entries : List Entry) :
    s.through (e :: entries) = (s.through [e]).through entries := by
  match e with
  | .isolated => simp [through]
  | .native => simp [through]

end Stack

namespace Thread

/-- A thread on a stack, whose flag says whether this is the kept one. -/
def on (s : Stack) : Thread := ⟨s, s = .kept⟩

/-- A thread as a callee finds it. -/
def inside (t : Thread) (e : Entry) : Thread :=
  match e, t.acquire with
  | .isolated, some switched => switched
  | _, _ => t

/-- A thread as its call returns, when the callee has left it in a state. -/
def leave (t : Thread) (e : Entry) (after : Thread) : Thread :=
  match e, t.acquire with
  | .isolated, some _ => after.release t.current
  | _, _ => after

/-- While a thread makes calls, it makes this one as well, inside callees that were entered in these
ways, and then it is in this state. -/
inductive Makes : Thread → List Call → List Entry → Thread → Call → Prop where
  | here (t : Thread) (before : List Call) (c : Call) (after : List Call) :
      Makes t (before ++ c :: after) [] (callAll before t).2 c
  | inside {t t' : Thread} {before after : List Call} {c c' : Call} {callers : List Entry}
      (h : Makes ((callAll before t).2.inside c.entry) c.inner callers t' c') :
      Makes t (before ++ c :: after) (c.entry :: callers) t' c'

/-- What a call does, in terms of what happens inside it. -/
theorem call_eq (c : Call) (t : Thread) :
    call c t = (.mk c.args (t.inside c.entry).current (callAll c.inner (t.inside c.entry)).1,
      t.leave c.entry (callAll c.inner (t.inside c.entry)).2) := by
  match c with
  | .mk .native args inner =>
    show (Visit.mk (args.received args.registers) _ _, _) = (Visit.mk args _ _, _)
    rw [Arguments.received_registers]
    rfl
  | .mk .isolated args inner =>
    unfold call inside leave
    rw [Arguments.received_registers]
    rcases t.acquire with - | switched
    · rfl
    · rfl

/-! ### The flag says which stack is in use -/

/-- A thread that is on its own stack takes a kept one, and one that is on a kept stack takes none.
-/
theorem acquire_on (s : Stack) : (on s).acquire = if s = .kept then none else some (on .kept) := by
  match s with
  | .own | .kept => rfl

/-- Where a thread is inside a call depends on where it was and how it entered. -/
theorem inside_on (s : Stack) (e : Entry) : (on s).inside e = on (s.through [e]) := by
  match s, e with
  | .own, .isolated | .own, .native | .kept, .isolated | .kept, .native => rfl

/-- Only the call that took the kept stack gives it back. -/
theorem leave_on (s : Stack) (e : Entry) : (on s).leave e (on (s.through [e])) = on s := by
  match s, e with
  | .own, .isolated | .own, .native | .kept, .isolated | .kept, .native => rfl

mutual

/-- A call leaves the thread as it was. -/
theorem snd_call (c : Call) (s : Stack) : (call c (on s)).2 = on s := by
  match c with
  | .mk entry args inner =>
    rw [call_eq, inside_on]
    show (on s).leave entry (callAll inner (on (s.through [entry]))).2 = on s
    rw [snd_callAll inner, leave_on]
termination_by structural c

/-- A thread is back on the stack that it was on when its calls have returned. -/
theorem snd_callAll (calls : List Call) (s : Stack) : (callAll calls (on s)).2 = on s := by
  match calls with
  | [] => rfl
  | c :: calls =>
    show (callAll calls (call c (on s)).2).2 = on s
    rw [snd_call c, snd_callAll calls]
termination_by structural calls

end

/-- What a callee sees. -/
theorem fst_call (c : Call) (s : Stack) :
    (call c (on s)).1 =
      .mk c.args (s.through [c.entry]) (callAll c.inner (on (s.through [c.entry]))).1 := by
  rw [call_eq, inside_on]
  rfl

/-- Each call finds the thread as the first one did. -/
theorem fst_callAll (calls : List Call) (s : Stack) :
    (callAll calls (on s)).1 = calls.map fun c ↦ (call c (on s)).1 := by
  induction calls with
  | nil => rfl
  | cons c calls ih =>
    show (call c (on s)).1 :: (callAll calls (call c (on s)).2).1 = _
    rw [snd_call, ih, List.map_cons]

/-- What the callee at a path saw, by the ways in which it and those around it were entered. -/
theorem seen?_callAll (calls : List Call) (s : Stack) (path : List Nat) :
    seen? (callAll calls (on s)).1 path =
      (callee? calls path).map fun (entries, args) ↦ (args, s.through entries) := by
  induction path generalizing calls s with
  | nil => rfl
  | cons i path ih =>
    rw [fst_callAll]
    match path with
    | [] =>
      rw [seen?, callee?, List.getElem?_map, Option.map_map, Option.map_map]
      refine congrArg (Option.map · _) (funext fun c ↦ ?_)
      show ((call c (on s)).1.args, (call c (on s)).1.stack) = (c.args, s.through [c.entry])
      rw [fst_call]
      rfl
    | j :: path =>
      rw [seen?, callee?, List.getElem?_map, Option.map_bind, Option.bind_map]
      refine congrArg (Option.bind _) (funext fun c ↦ ?_)
      show seen? (call c (on s)).1.inner (j :: path) = Option.map _ (Option.map _ _)
      rw [fst_call, Option.map_map]
      show seen? (callAll c.inner _).1 (j :: path) = _
      rw [ih]
      refine congrArg (Option.map · _) (funext fun way ↦ ?_)
      exact congrArg (Prod.mk way.2) (s.through_cons c.entry way.1).symm

/-- The callees around a call decide the state in which the call finds the thread. -/
theorem Makes.eq_on {calls : List Call} {callers : List Entry} {t t' : Thread} {c : Call}
    (h : Makes t calls callers t' c) {s : Stack} (ht : t = on s) : t' = on (s.through callers) := by
  induction h generalizing s with
  | here t before c after =>
    rw [ht, snd_callAll]
    simp [Stack.through]
  | @inside t _ before _ c _ callers _ ih =>
    rw [ht, snd_callAll, inside_on] at ih
    rw [s.through_cons]
    exact ih rfl

/-- **Calls are nested like their stacks.** Whatever calls a thread makes that has made none before,
each callee receives its arguments in order, and it runs on the kept stack if it or a callee around
it was entered there, and on the thread's own stack if not. At each moment the kept stack can be
taken unless a callee around the next call was entered there, and a call leaves the thread as it
was: once an outermost isolated call has returned, the next one takes the kept stack again. -/
theorem discipline (calls : List Call) :
    (∀ path, seen? (callAll calls fresh).1 path = (callee? calls path).map fun (entries, args) ↦
      (args, if .isolated ∈ entries then .kept else .own)) ∧
    (callAll calls fresh).2 = fresh ∧
    ∀ callers t c, Makes fresh calls callers t c →
      t.acquire = (if .isolated ∈ callers then none else some ⟨.kept, true⟩) ∧
      (call c t).2 = t := by
  have hfresh : fresh = on .own := rfl
  refine ⟨fun path ↦ ?_, ?_, fun callers t c h ↦ ?_⟩
  · rw [hfresh, seen?_callAll]
    rfl
  · rw [hfresh, snd_callAll]
  · rw [h.eq_on hfresh, acquire_on, snd_call]
    refine ⟨?_, rfl⟩
    by_cases hmem : .isolated ∈ callers
    · simp [Stack.through, hmem]
    · simp [Stack.through, hmem, on]

/-- Inside a native callee, an isolated call whose callee makes calls of both kinds, and then
another. -/
example : (callAll [.mk .native .zero [.mk .isolated (.one 7) [.mk .isolated (.two 8 9) [],
    .mk .native .zero []], .mk .isolated .zero []]] fresh).1 =
    [.mk .zero .own [.mk (.one 7) .kept [.mk (.two 8 9) .kept [], .mk .zero .kept []],
      .mk .zero .kept []]] := rfl

end Thread

end RingCall.Gate
