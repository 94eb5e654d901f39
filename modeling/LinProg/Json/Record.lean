import LinProg.Json.Read

/-!
Values read from JSON documents. A record is an object with its fields as members, or an array of
its fields in order; a choice is a name, or an object that has the name as its one member.
-/
namespace LinProg.Json

/-- The fields of a record that were found, in the order they were asked for. An object may leave
fields out anywhere, an array at its end. -/
structure Fields where
  isArray : Bool
  values : List (Option Json)

/-- The value of a member, if the object has it once at most. -/
def member? (members : List (Option String × Json)) (name : String) : Option (Option Json) :=
  match members.filter fun m => m.1 == some name with
  | [] => some none
  | [m] => some (some m.2)
  | _ => none

/-- The fields of a record. Other members of an object count for nothing, but they need a name. -/
def fields? (names : List String) : Json → Option Fields
  | .object members =>
    if members.any fun m => m.1.isNone then none
    else (names.mapM (member? members)).map fun values => ⟨false, values⟩
  | .array items =>
    if names.length < items.length then none
    else some ⟨true, items.map some ++ List.replicate (names.length - items.length) none⟩
  | _ => none

/-- One of several named values. -/
def choice? {α : Type} (names : List (String × α)) : Json → Option α
  | .string (some name) => names.lookup name
  | .object [(some name, .null)] => names.lookup name
  | _ => none

def text? : Json → Option String
  | .string text? => text?
  | _ => none

def nat? : Json → Option Nat
  | .number n => n.toNat?
  | _ => none

def float? : Json → Option Float
  | .number n => n.toFloat?
  | _ => none

end LinProg.Json
