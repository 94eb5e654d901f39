import LinProg.Equation

/-!
Linear programs: an objective, constraints, and the registry of their variables, all of which are
to be nonnegative.
-/
namespace LinProg

inductive Direction
  | maximize
  | minimize
  deriving DecidableEq, Repr

inductive Relation
  | atMost
  | atLeast
  | equal
  deriving DecidableEq, Repr

/-- The relation between the negated sides. -/
def Relation.flip : Relation → Relation
  | .atMost => .atLeast
  | .atLeast => .atMost
  | .equal => .equal

@[simp] theorem Relation.flip_flip (r : Relation) : r.flip.flip = r := by cases r <;> rfl

structure Objective (K : Type) where
  equation : Equation K
  direction : Direction

structure Constraint (K : Type) where
  equation : Equation K
  relation : Relation
  bound : K

structure Program (K : Type) where
  registry : Registry
  objective : Objective K
  constraints : List (Constraint K)

namespace Objective
variable {K : Type} [Scalar K]

def isMaximize (o : Objective K) : Bool := o.direction == .maximize

/-- The expression that is to be as large as possible. -/
def maximized (o : Objective K) : Equation K :=
  match o.direction with
  | .maximize => o.equation
  | .minimize => o.equation.negate

/-- Turns minimizing into maximizing the negated expression. This can be done once only. -/
def toMaximize (o : Objective K) : Except Misuse (Objective K) :=
  match o.direction with
  | .maximize => .error .alreadyMaximized
  | .minimize => .ok ⟨o.equation.negate, .maximize⟩

end Objective

end LinProg
