import LinProg.Formula.Meaning
import LinProg.Program
import LinProg.Text

/-!
Problems as a user enters them: the number of variables, expressions as text, and constants. A
problem that passes its checks becomes a program.
-/
namespace LinProg

/-- A constraint as it is entered. -/
structure Condition (K : Type) where
  lhs : String
  relation : Relation
  rhs : K
  deriving DecidableEq, Repr

structure Problem (K : Type) where
  variableCount : Nat
  objective : String
  direction : Direction
  constraints : List (Condition K)
  deriving DecidableEq, Repr

/-- A text of a problem. Constraints are numbered from 1. -/
inductive Location
  | objective
  | constraint (number : Nat)
  deriving DecidableEq, Repr

def Location.text : Location → String
  | .objective => "objective function"
  | .constraint number => "constraint " ++ toString number

inductive CompileError
  | noVariables
  | emptyObjective
  | emptyConstraint (number : Nat)
  | nonFiniteRhs (number : Nat)
  | parse (location : Location) (source : Formula.ParseError)
  deriving DecidableEq, Repr

namespace CompileError

def message : CompileError → String
  | .noVariables => "Problem must have at least one variable"
  | .emptyObjective => "Objective function is empty"
  | .emptyConstraint number => "Constraint " ++ toString number ++ " is empty"
  | .nonFiniteRhs number =>
    "Constraint " ++ toString number ++ " has a non-finite right-hand side"
  | .parse location source => "Error in " ++ location.text ++ ": " ++ source.message

def location? : CompileError → Option Location
  | .noVariables => none
  | .emptyObjective => some .objective
  | .emptyConstraint number | .nonFiniteRhs number => some (.constraint number)
  | .parse location _ => some location

end CompileError

namespace Problem
variable {K : Type} [Scalar K]

def isEmptyText (text : String) : Bool := text.toList.all Text.isBlank

/-- A constraint needs a text and a number to compare with. -/
def checkCondition (number : Nat) (c : Condition K) : Except CompileError Unit :=
  if isEmptyText c.lhs then .error (.emptyConstraint number)
  else if Scalar.isFinite c.rhs then .ok ()
  else .error (.nonFiniteRhs number)

def checkConditions : Nat → List (Condition K) → Except CompileError Unit
  | _, [] => .ok ()
  | number, c :: rest => do
    checkCondition number c
    checkConditions (number + 1) rest

/-- The checks that come before any text is read. -/
def check (p : Problem K) : Except CompileError Unit :=
  if p.variableCount = 0 then .error .noVariables
  else if isEmptyText p.objective then .error .emptyObjective
  else checkConditions 1 p.constraints

/-- Reads a text of the problem. -/
def readAt (location : Location) (text : String) (r : Registry) :
    Except CompileError (Equation K) :=
  (Formula.read text r).mapError (.parse location)

def readConditions (r : Registry) :
    Nat → List (Condition K) → Except CompileError (List (Constraint K))
  | _, [] => .ok []
  | number, c :: rest => do
    let equation ← readAt (.constraint number) c.lhs r
    return ⟨equation, c.relation, c.rhs⟩ :: (← readConditions r (number + 1) rest)

/-- The program of a problem. Its variables are called `stem1`, `stem2`, … -/
def compile (p : Problem K) (stem : String := "X") : Except CompileError (Program K) := do
  p.check
  let registry := Registry.numbered stem p.variableCount
  let equation ← readAt .objective p.objective registry
  let constraints ← readConditions registry 1 p.constraints
  return { registry, objective := ⟨equation, p.direction⟩, constraints }

/-- The text at a location, if the problem has it. -/
def textAt? (p : Problem K) : Location → Option String
  | .objective => some p.objective
  | .constraint number => p.constraints[number - 1]?.map Condition.lhs

end Problem

end LinProg
