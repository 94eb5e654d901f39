import LinProg.Json.Number

/-!
JSON documents. Numbers are kept as they are written, since a reader of a document decides what
kind of number it wants, and members keep their order and repetitions.
-/
namespace LinProg

/-- A document. A string is missing its text if its escapes spell half of a surrogate pair. -/
inductive Json
  | null
  | bool (b : Bool)
  | number (n : JsonNumber)
  | string (text? : Option String)
  | array (items : List Json)
  | object (members : List (Option String × Json))

namespace Json

def text (s : String) : Json := .string (some s)

def nat (n : Nat) : Json := .number (.ofNat n)

/-- A double, or no value for the special ones. -/
def float (x : Float) : Json :=
  match JsonNumber.ofFloat? x with
  | some n => .number n
  | none => .null

end Json

end LinProg
