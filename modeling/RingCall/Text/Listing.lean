/-!
# Listings

How a record of named values is shown to a person: on one line (`Listing.line`), or with one field a
line (`Listing.block`). A listing may leave fields out, which two dots say.
-/

namespace RingCall.Text

/-- The shown value of a field. -/
inductive Shown where
  | plain (text : String)
  /-- A value under a tag of its own. -/
  | tagged (tag text : String)
  deriving DecidableEq, Repr

namespace Shown

def ofNat (n : Nat) : Shown := plain (toString n)

def ofBool (b : Bool) : Shown := plain (if b then "true" else "false")

/-- The value on one line. -/
def line : Shown → String
  | plain text => text
  | tagged tag text => tag ++ "(" ++ text ++ ")"

/-- The lines of the value, the first of which continues a line. -/
def block : Shown → List String
  | plain text => [text]
  | tagged tag text => [tag ++ "(", "    " ++ text ++ ",", ")"]

end Shown

/-- A record's name and its shown fields. -/
structure Listing where
  name : String
  fields : List (String × Shown)
  /-- Whether no field was left out. -/
  isComplete : Bool := true
  deriving DecidableEq, Repr

namespace Listing

/-- The listing on one line. -/
def line (l : Listing) : String :=
  let fields := l.fields.map fun (name, v) ↦ name ++ ": " ++ v.line
  let parts := if l.isComplete then fields else fields ++ [".."]
  l.name ++ " \x7b " ++ ", ".intercalate parts ++ " \x7d"

/-- The listing with one field a line. -/
def block (l : Listing) : String :=
  let field := fun ((name, v) : String × Shown) ↦
    match v.block with
    | first :: rest => (name ++ ": " ++ first) :: rest
    | [] => []
  let closed := fun (lines : List String) ↦ "\n    ".intercalate lines ++ ","
  let fields := l.fields.map fun f ↦ closed (field f)
  let parts := if l.isComplete then fields else fields ++ [".."]
  l.name ++ " \x7b" ++ String.join (parts.map ("\n    " ++ ·)) ++ "\n\x7d"

end Listing

end RingCall.Text
