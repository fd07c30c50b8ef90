import RingCall.Call.Session
import RingCall.Proofs.Call.Registration
import RingCall.Proofs.Pool.Turnover
import RingCall.Proofs.Slab.Reuse
import RingCall.Proofs.Wire.RoundTrip

/-!
# What a call comes to

A handler may call the peer before it replies. Its call is served while its own worker is taken, and
by a handler that may call back in turn. `Query.ComesTo` says what comes of a call by this, from the
handlers alone: rings, tickets and threads have no part in it.

They matter for whether there is an answer. Each call takes a worker of the peer until it is
answered, a ticket, and memory for its request. `Scene` says what is left of these where a call is
made, and a call comes to something only if there is enough left for it (`Query.Accepted`,
`Query.Fits`) and for the calls that are nested in it. How deep calls are nested is bounded by the
number of workers (`Query.ComesWithin.of_spare`).
-/

namespace RingCall

open Wire

/-- What a call finds where it is made. -/
structure Scene where
  heap : Heap
  /-- The workers of each end that run no call. -/
  spare : Side → Nat
  /-- The calls of each end that await their reply. -/
  pending : Side → Load
  /-- The responses that each end keeps. -/
  stored : Side → Load

/-- The scene while a call of an end is being served. -/
def Scene.serving (scene : Scene) (side : Side) : Scene where
  heap := scene.heap
  spare other := if other = side.other then scene.spare other - 1 else scene.spare other
  pending other :=
    if other = side then { scene.pending other with len := (scene.pending other).len + 1 }
    else scene.pending other
  stored := scene.stored

/-- What a call finds in a session. -/
def Session.scene (s : Session) : Scene where
  heap := s.heap
  spare side := (s.party side).pool.spare
  pending side := (s.party side).endpoint.pending.load
  stored side := (s.party side).endpoint.stored.load

/-- A call takes a worker, and gives none. -/
theorem Scene.spare_serving_le (scene : Scene) (side other : Side) :
    (scene.serving side).spare other ≤ scene.spare other := by
  show (if other = side.other then scene.spare other - 1 else scene.spare other) ≤ _
  split
  · exact Nat.sub_le _ _
  · exact Nat.le_refl _

/-- There are no more spare workers in a session than there are workers. -/
theorem Session.spare_serving_le (s : Session) (side : Side) :
    (s.scene.serving side).spare .left + (s.scene.serving side).spare .right ≤
      s.left.pool.size + s.right.pool.size :=
  Nat.add_le_add (Nat.le_trans (s.scene.spare_serving_le side .left) s.left.pool.spare_le_size)
    (Nat.le_trans (s.scene.spare_serving_le side .right) s.right.pool.spare_le_size)

namespace Query

variable {q : Query} {answer : Option q.response.Value} {scene : Scene}

/-- The memory in which a call is made, with its request. -/
def memory (q : Query) (h : Heap) : Memory := (h.store q.request q.value).2.memory

/-- The address of the request of a call. -/
def address (q : Query) (h : Heap) : UInt64 :=
  .ofNat (h.store q.request q.value).1.refAddress

/-- The scene that the handler of a call finds. -/
def enter (q : Query) (scene : Scene) : Scene :=
  { scene with heap := (scene.heap.store q.request q.value).2 }.serving q.side

/-- There is memory for the request of a call and for the response, and a handle for the
response. -/
structure Fits (q : Query) (answer : Option q.response.Value) (scene : Scene) : Prop where
  request : q.request.Countable q.value
  request_top : (scene.heap.store q.request q.value).2.top ≤ 2 ^ 64
  response : ∀ w, answer = some w → q.response.Countable w
  response_top : ∀ w, answer = some w →
    ((scene.heap.store q.request q.value).2.store q.response w).2.top ≤ 2 ^ 64
  handles : (scene.stored q.side.other).HasHandles

/-- The request of a call can be read where it was stored. -/
theorem Fits.readAt (h : q.Fits answer scene) :
    q.request.readAt (q.memory scene.heap) (q.address scene.heap).toNat = .ok q.value :=
  Ty.readAt_store h.request h.request_top

/-- There is a worker for a call, and a ticket. -/
structure Accepted (q : Query) (scene : Scene) : Prop where
  worker : 0 < scene.spare q.side.other
  ticket : (scene.pending q.side).HasHandles

/-- What a call comes to if the calls nested in it are less than `n` deep. -/
def ComesWithin (registry : Side → Registry) : Nat → Scene → (q : Query) →
    Option q.response.Value → Prop
  | 0, _, _, _ => False
  | n + 1, scene, q, answer => q.Accepted scene ∧ q.Fits answer scene ∧
      (registry q.side.other).Answers (ComesWithin registry n (q.enter scene)) q
        (q.memory scene.heap) (q.address scene.heap) answer

/-- What a call comes to, however deep calls are nested in it. -/
def ComesTo (registry : Side → Registry) (scene : Scene) (q : Query)
    (answer : Option q.response.Value) : Prop := ∃ n, ComesWithin registry n scene q answer

/-- Calls are nested no deeper than there are workers. -/
theorem ComesWithin.of_spare {registry : Side → Registry} {n m : Nat}
    (h : ComesWithin registry n scene q answer)
    (hspare : scene.spare .left + scene.spare .right ≤ m) :
    ComesWithin registry m scene q answer := by
  induction n generalizing m scene q with
  | zero => exact h.elim
  | succ n ih =>
    obtain ⟨haccepted, hfits, hanswers⟩ := h
    have hworker := haccepted.worker
    have hentered : (q.enter scene).spare .left + (q.enter scene).spare .right + 1 =
        scene.spare .left + scene.spare .right := by
      cases hside : q.side <;> simp [enter, Scene.serving, hside, Side.other] at hworker ⊢ <;> omega
    obtain ⟨m, rfl⟩ : ∃ k, m = k + 1 := ⟨m - 1, by omega⟩
    exact ⟨haccepted, hfits, hanswers.mono fun q answer hcomes ↦ ih hcomes (by omega)⟩

end Query

/-- The calls of a handler are nested no deeper than there are workers. -/
theorem Registry.Answers.within {r : Registry} {registry : Side → Registry} {scene : Scene}
    {q : Query} {m : Memory} {address : UInt64} {answer : Option q.response.Value}
    (h : r.Answers (fun nested told ↦ nested.ComesTo registry scene told) q m address answer)
    {n : Nat} (hn : scene.spare .left + scene.spare .right ≤ n) :
    r.Answers (Query.ComesWithin registry n scene) q m address answer :=
  h.mono fun _ _ ⟨_, hcomes⟩ ↦ hcomes.of_spare hn

end RingCall
