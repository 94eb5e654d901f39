import LinProg.Tableau.Build

/-!
The operations that lead from one tableau to the next: pivots, and the change from the sum of the
artificial variables to the objective.
-/
namespace LinProg

/-- A constraint row, counted from 0, and the column it is to be solved for. -/
structure Pivot where
  row : Nat
  column : Nat
  deriving DecidableEq, Repr

namespace Tableau
variable {K : Type} [Scalar K]

/-- Solves a row for a column and clears that column in all other rows. -/
def pivot (t : Tableau K) (p : Pivot) : Tableau K :=
  match t.rows[p.row]? with
  | none => t
  | some row =>
    let lead := row.toRow.map (· / row.entry p.column)
    { t with
      costs := t.costs.eliminate p.column lead
      rows := t.rows.mapIdx fun i r =>
        if i = p.row then { toRow := lead, basic := p.column }
        else { r with toRow := r.toRow.eliminate p.column lead } }

@[simp] theorem columns_pivot (t : Tableau K) (p : Pivot) : (t.pivot p).columns = t.columns := by
  unfold pivot; split <;> rfl

@[simp] theorem length_rows_pivot (t : Tableau K) (p : Pivot) :
    (t.pivot p).rows.length = t.rows.length := by
  unfold pivot; split <;> simp

/-- Minimizing the sum of the artificial variables is maximizing the negated sum. -/
def negateCosts (t : Tableau K) : Tableau K := { t with costs := t.costs.map (-·) }

/-- Puts the objective back into the costs, and clears each basic column in them through its row. -/
def enterObjective (t : Tableau K) : Tableau K :=
  { t with
    goal := .objective
    costs := t.rows.foldl (fun costs row => costs.eliminate row.basic row.toRow)
      (objectiveCosts t.columns t.objective) }

/-- The name of the artificial variable in the first row that is solved for one. -/
def basicArtificial? (t : Tableau K) : Option String :=
  (t.rows.findSome? fun row => (t.columns.at? row.basic).filter Variable.isArtificial).map
    Variable.name

/-- The entries of a row in the columns that are not artificial. -/
def keptEntries (columns : Registry) (entries : List K) : List K :=
  ((entries.zipIdx.filter fun e => !columns.isArtificial e.2).map Prod.fst)

/-- The number of columns in front of `column` that are not artificial. -/
def keptBefore (columns : Registry) (column : Nat) : Nat :=
  ((List.range column).filter fun c => !columns.isArtificial c).length

/-- Removes the artificial columns and renumbers the others. It fails with the name of an artificial
variable if a row is solved for one. -/
def removeArtificials (t : Tableau K) : Except String (Tableau K) :=
  match t.basicArtificial? with
  | some name => .error name
  | none =>
    .ok { t with
      columns := t.columns.retain fun v => !v.isArtificial
      costs := { t.costs with entries := keptEntries t.columns t.costs.entries }
      rows := t.rows.map fun row =>
        { entries := keptEntries t.columns row.entries
          rhs := row.rhs
          basic := keptBefore t.columns row.basic } }

/-- The value of a program that minimizes is negated back. -/
def finish (t : Tableau K) : Tableau K :=
  if t.minimizes then { t with costs := { t.costs with rhs := -t.costs.rhs } } else t

end Tableau

end LinProg
