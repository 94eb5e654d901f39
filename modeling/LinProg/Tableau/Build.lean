import LinProg.Tableau

/-!
The first tableau of a program. Rows with a negative right-hand side are negated. A row that is at
most its right-hand side gets a slack column, one that is at least it a surplus column, and where no
slack can start in the basis an artificial column does.
-/
namespace LinProg

namespace Constraint
variable {K : Type} [Scalar K]

/-- The relation of the row, turned around where the row is negated. -/
def rowRelation (c : Constraint K) : Relation :=
  if 0 ≤ c.bound then c.relation else c.relation.flip

/-- The factor of the row. -/
def rowSign (c : Constraint K) : K := if c.bound < 0 then -1 else 1

end Constraint

namespace Tableau
variable {K : Type}

/-- The columns so far. Slack and surplus columns are counted together, artificial ones apart. -/
structure Growth where
  columns : Registry
  slacks : Nat := 0
  artificials : Nat := 0

namespace Growth

def addSlack (g : Growth) (kind : Kind) : Except Misuse Growth := do
  let columns ← g.columns.push ("S" ++ toString (g.slacks + 1)) kind
  return { g with columns, slacks := g.slacks + 1 }

def addArtificial (g : Growth) : Except Misuse Growth := do
  let columns ← g.columns.push ("A" ++ toString (g.artificials + 1)) .artificial
  return { g with columns, artificials := g.artificials + 1 }

end Growth

/-- The entries of a row in the columns added for it, and the one it starts solved for. -/
structure Supplement (K : Type) where
  units : List (Nat × K)
  basic : Nat

variable [Scalar K]

/-- The columns added for a row of a given relation. -/
def supplement (g : Growth) : Relation → Except Misuse (Growth × Supplement K)
  | .atMost => do
    let slack := g.columns.size
    return (← g.addSlack .slack, ⟨[(slack, 1)], slack⟩)
  | .atLeast => do
    let surplus := g.columns.size
    let artificial := surplus + 1
    let g ← g.addSlack .surplus
    return (← g.addArtificial, ⟨[(surplus, -1), (artificial, 1)], artificial⟩)
  | .equal => do
    let artificial := g.columns.size
    return (← g.addArtificial, ⟨[(artificial, 1)], artificial⟩)

/-- The columns added for all rows, in their order. -/
def supplements (g : Growth) : List (Constraint K) → Except Misuse (Growth × List (Supplement K))
  | [] => .ok (g, [])
  | c :: rest => do
    let (g, s) ← supplement g c.rowRelation
    let (g, ss) ← supplements g rest
    return (g, s :: ss)

/-- The row of a constraint, whose number counts from 1. The first columns are the program's own;
`added` columns follow them. -/
def constraintRow (own : List Variable) (added number : Nat) (c : Constraint K)
    (s : Supplement K) : Except Misuse (BasicRow K) := do
  let front ← own.mapM fun v =>
    match c.equation.get? v.index with
    | some a => .ok (c.rowSign * a)
    | none => .error (.missingCoefficient number v.name)
  let back := (List.range added).map fun j => (s.units.lookup (own.length + j)).getD 0
  return { entries := front ++ back, rhs := c.rowSign * c.bound, basic := s.basic }

def constraintRows (own : List Variable) (added : Nat) :
    Nat → List (Constraint K) → List (Supplement K) → Except Misuse (List (BasicRow K))
  | number, c :: cs, s :: ss => do
    let row ← constraintRow own added number c s
    return row :: (← constraintRows own added (number + 1) cs ss)
  | _, _, _ => .ok []

/-- The costs of an objective: negated coefficients in the columns of decisions. -/
def objectiveCosts (columns : Registry) (objective : Equation K) : Row K where
  entries := columns.members.map fun v =>
    if v.kind.isAdded then 0
    else match objective.get? v.index with
      | some c => -c
      | none => 0
  rhs := 0

/-- The costs of the sum of the artificial variables, with each of them already expressed through
the row that starts solved for it. -/
def artificialCosts (columns : Registry) (rows : List (BasicRow K)) : Row K :=
  (rows.filter fun row => columns.isArtificial row.basic).foldl
    (fun costs row => costs.zipWith (· + ·) row.toRow)
    ⟨columns.members.map fun v => if v.isArtificial then -1 else 0, 0⟩

/-- The variables that the objective mentions, in the order of the registry. -/
def ownColumns (objective : Equation K) (r : Registry) : Except Misuse Registry :=
  (r.members.filter fun v => objective.contains v.index).foldlM Registry.insert Registry.empty

/-- The first tableau. All columns are added before any row is filled in. -/
def build (p : Program K) : Except Misuse (Tableau K) := do
  let objective := p.objective.maximized
  let own ← ownColumns objective p.registry
  let (g, ss) ← supplements { columns := own } p.constraints
  let rows ← constraintRows own.members (g.columns.size - own.size) 1 p.constraints ss
  let phase := if g.artificials = 0 then Phase.single else .two
  return {
    columns := g.columns
    costs := match phase with
      | .single => objectiveCosts g.columns objective
      | .two => artificialCosts g.columns rows
    rows, phase, objective
    minimizes := !p.objective.isMaximize
    goal := match phase with
      | .single => .objective
      | .two => .artificials }

end Tableau

end LinProg
