import RingCall.Foreign.Attach

/-!
# A catalog of handlers

Handlers that are known by name: arithmetic on words, text, lists, greetings, one that panics, and
one that calls its peer. They cover each layout kind in both directions. Two more are those of
another runtime.
-/

namespace RingCall.Catalog

open Wire

/-- A list in pieces of three, the last of which may be shorter. -/
def inThrees {α : Type} : List α → List (List α)
  | a :: b :: c :: rest => [a, b, c] :: inThrees rest
  | [] => []
  | rest => [rest]

/-- Greets whoever greets. -/
def greet (g : Greeting) : Greeting :=
  ⟨g.id + 1, "hello, " ++ g.name, g.tags.reverse⟩

/-- Passes a word on to a handler of the peer and multiplies what that answers by ten. If the peer
does not answer, the response is 7. -/
def callback (callId : UInt32) : Handler :=
  .reading .word .word fun (x : UInt64) ↦ .call callId .word x .word fun
    | .ok (y : UInt64) => .reply .word (y * 10 : UInt64)
    | .error _ => .reply .word (7 : UInt64)

/-- The handlers with a fixed name. -/
def named : List (String × Handler) := [
  ("double", .typed .word .word fun (x : UInt64) ↦ (x * 2 : UInt64)),
  ("inc", .typed .word .word fun (x : UInt64) ↦ (x + 1 : UInt64)),
  ("neg", .typed (.prim .i64) (.prim .i64) fun (x : Int64) ↦ (-x : Int64)),
  ("not", .typed (.prim .bool) (.prim .bool) fun (b : Bool) ↦ (!b : Bool)),
  ("unit", .typed (.prim .unit) (.prim .unit) fun _ ↦ ()),
  ("sum_u32", .typed (.list (.prim .u32)) (.prim .u32) fun (xs : List UInt32) ↦
    (xs.foldl (· + ·) 0 : UInt32)),
  ("upper", .typed .string .string fun (s : String) ↦ (s.map Char.toUpper : String)),
  ("concat", .typed (.list .string) .string fun (ss : List String) ↦ (String.join ss : String)),
  ("reverse", .typed (.list .string) (.list .string) fun (ss : List String) ↦ ss.reverse),
  ("lens", .typed (.list .string) (.list .word) fun (ss : List String) ↦
    ss.map fun s ↦ UInt64.ofNat (Text.utf8 s).length),
  ("flatten", .typed (.list (.list (.prim .i64))) (.list (.prim .i64))
    fun (xss : List (List Int64)) ↦ xss.flatten),
  ("chunk", .typed (.list (.prim .u8)) (.list (.list (.prim .u8))) fun (xs : List UInt8) ↦
    inThrees xs),
  ("greet", .typed .greeting .greeting greet),
  ("greet_all", .typed (.list .greeting) (.list .greeting) fun (gs : List Greeting) ↦
    (gs.map greet).reverse),
  ("panic_if_zero", .reading .word .word fun (x : UInt64) ↦
  if x = 0 then .panic else .reply .word x), ("raw", .typed .word .word fun (x : UInt64) ↦
    (x ^^^ 255 : UInt64))]

/-- The handler of a name. A name `callback:n` is that of a handler which calls id `n` of its
peer. -/
def find? (name : String) : Option Handler :=
  match named.lookup name with
  | some h => some h
  | none =>
    match name.toList with
    | 'c' :: 'a' :: 'l' :: 'l' :: 'b' :: 'a' :: 'c' :: 'k' :: ':' :: digits =>
      (String.ofList digits).toNat?.map fun n ↦ callback (.ofNat n)
    | _ => none

/-- Serves any id: a million times the id and the request. -/
def sumWithId (callId : UInt32) : Handler :=
  .typed .word .word fun (x : UInt64) ↦ (callId.toUInt64 * 1000000 + x : UInt64)

/-- The registry of a list of ids and names. Names that are not in the catalog are passed over. -/
def registry (entries : List (UInt32 × String)) (hasFallback : Bool) : Registry :=
  let r := entries.foldl (fun r (callId, name) ↦
    match find? name with
    | some h => r.register callId h
    | none => r) Registry.empty
  if hasFallback then r.withFallback sumWithId else r

/-- The types of the requests and responses of an id, which are words unless a handler says
otherwise. -/
def types (r : Registry) (callId : UInt32) : Ty × Ty :=
  match r.find? callId with
  | some h => (h.request, h.response)
  | none => (.word, .word)

/-- A handler of another runtime that weighs the id and adds the request, or 5 if there is none. -/
def weigh : Foreign.ForeignHandler := fun callId m address ↦
  let x : UInt64 :=
    if address = 0 then 5 else (Ty.word.readAt m address.toNat).toOption.getD (0 : UInt64)
  some (callId.toUInt64 * 1000003 + x)

/-- A handler of another runtime that writes nothing. -/
def silent : Foreign.ForeignHandler := fun _ _ _ ↦ none

end RingCall.Catalog
