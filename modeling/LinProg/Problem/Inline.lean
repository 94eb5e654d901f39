import LinProg.Decimal.Literal
import LinProg.Problem

/-!
Problems entered without a file: a constraint is a text with a comparison in it, and an objective
comes with its direction.
-/
namespace LinProg.Inline

/-- The comparisons, in the order in which they are looked for. -/
def operators : List (List Char × Relation) :=
  [(['<', '='], .atMost), (['≤'], .atMost), (['>', '='], .atLeast), (['≥'], .atLeast),
    (['='], .equal)]

/-- The texts on both sides of the first place where `mark` stands. -/
def splitAt? (mark : List Char) : List Char → Option (List Char × List Char)
  | [] => if mark.isEmpty then some ([], []) else none
  | c :: cs =>
    if mark.isPrefixOf (c :: cs) then some ([], (c :: cs).drop mark.length)
    else (splitAt? mark cs).map fun sides => (c :: sides.1, sides.2)

/-- The sides of the first comparison, in the order of `operators`, that stands anywhere. -/
def split? (text : List Char) : Option (List Char × Relation × List Char) :=
  operators.findSome? fun op => (splitAt? op.1 text).map fun sides => (sides.1, op.2, sides.2)

inductive Fault
  | noVariables
  | noObjective
  | noOperator (text : String)
  | invalidNumber (text number : String)
  deriving DecidableEq, Repr

def Fault.message : Fault → String
  | .noVariables => "either a problem file or --vars is required"
  | .noObjective => "exactly one of --max or --min is required"
  | .noOperator text => "constraint '" ++ text ++ "' has no <=, >= or = operator"
  | .invalidNumber text number =>
    "constraint '" ++ text ++ "' has an invalid right-hand side '" ++ number ++ "'"

/-- The constraint that a text states: an expression, a comparison and a number. -/
def condition (text : String) : Except Fault (Condition Float) :=
  match split? text.toList with
  | none => .error (.noOperator text)
  | some (left, relation, right) =>
    let number := Text.trim right
    match Decimal.read? number with
    | none => .error (.invalidNumber text (String.ofList number))
    | some rhs => .ok { lhs := String.ofList (Text.trim left), relation, rhs }

/-- The objective and its direction. -/
def objective (max? min? : Option String) : Except Fault (String × Direction) :=
  match max?, min? with
  | some text, none => .ok (text, .maximize)
  | none, some text => .ok (text, .minimize)
  | _, _ => .error .noObjective

def problem (count? : Option Nat) (max? min? : Option String) (constraints : List String) :
    Except Fault (Problem Float) := do
  match count? with
  | none => .error .noVariables
  | some variableCount =>
    let (objective, direction) ← objective max? min?
    return { variableCount, objective, direction, constraints := ← constraints.mapM condition }

end LinProg.Inline
