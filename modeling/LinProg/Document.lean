import LinProg.Json.Record
import LinProg.Json.Write
import LinProg.Problem
import LinProg.Solution

/-!
Problems and variables in JSON documents, and solutions written to them.
-/
namespace LinProg

def Direction.names : List (String × Direction) :=
  [("maximize", .maximize), ("max", .maximize), ("minimize", .minimize), ("min", .minimize)]

def Relation.names : List (String × Relation) :=
  [("<=", .atMost), ("le", .atMost), (">=", .atLeast), ("ge", .atLeast), ("=", .equal),
    ("eq", .equal)]

def Kind.names : List (String × Kind) :=
  [("Decision", .decision), ("Slack", .slack), ("Surplus", .surplus), ("Artificial", .artificial)]

/-- The name a direction is written under. -/
def Direction.text : Direction → String
  | .maximize => "maximize"
  | .minimize => "minimize"

def Relation.text : Relation → String
  | .atMost => "<="
  | .atLeast => ">="
  | .equal => "="

def Kind.text : Kind → String
  | .decision => "Decision"
  | .slack => "Slack"
  | .surplus => "Surplus"
  | .artificial => "Artificial"

namespace Condition

def ofJson? (j : Json) : Option (Condition Float) := do
  match (← j.fields? ["lhs", "relation", "rhs"]).values with
  | [some lhs, some relation, some rhs] =>
    return { lhs := ← lhs.text?, relation := ← Json.choice? Relation.names relation,
             rhs := ← rhs.float? }
  | _ => none

end Condition

namespace Problem

/-- The constraints of a problem; none if the field is missing. -/
def conditions? : Option Json → Option (List (Condition Float))
  | none => some []
  | some (.array items) => items.mapM Condition.ofJson?
  | some _ => none

def ofJson? (j : Json) : Option (Problem Float) := do
  match (← j.fields? ["variables", "objective", "direction", "constraints"]).values with
  | [some count, some objective, some direction, constraints] =>
    return { variableCount := ← count.nat?, objective := ← objective.text?,
             direction := ← Json.choice? Direction.names direction,
             constraints := ← conditions? constraints }
  | _ => none

/-- The problem that a document describes. -/
def read? (source : String) : Option (Problem Float) := (Json.read? source).bind ofJson?

end Problem

namespace Variable

/-- An alias, missing or written as no value if there is none. An array has to have the field. -/
def readAlias? (isArray : Bool) : Option Json → Option (Option String)
  | none => if isArray then none else some none
  | some .null => some none
  | some j => j.text?.map some

def ofJson? (j : Json) : Option Variable := do
  let fields ← j.fields? ["name", "index", "kind", "alias"]
  match fields.values with
  | [some name, some index, some kind, aliasField] =>
    return { name := ← name.text?, index := ← index.nat?, kind := ← Json.choice? Kind.names kind,
             alias? := ← readAlias? fields.isArray aliasField }
  | _ => none

def toJson (v : Variable) : Json :=
  .object [(some "name", .text v.name), (some "index", .nat v.index),
    (some "kind", .text v.kind.text), (some "alias", (v.alias?.map Json.text).getD .null)]

end Variable

namespace Solution

/-- A name with its value. -/
def valueOfJson? (j : Json) : Option (String × Float) := do
  match (← j.fields? ["name", "value"]).values with
  | [some name, some value] => return (← name.text?, ← value.float?)
  | _ => none

def toJson (s : Solution Float) : Json :=
  .object [(some "objective_value", .float s.objectiveValue),
    (some "values", .array (s.values.map fun v =>
      .object [(some "name", .text v.1), (some "value", .float v.2)])),
    (some "iterations", .nat s.iterations)]

end Solution

end LinProg
