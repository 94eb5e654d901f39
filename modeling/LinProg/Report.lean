import LinProg.Decimal.Fixed
import LinProg.Solution
import LinProg.Text

/-!
Tableaux and solutions as text, with numbers rounded to a fixed count of decimal places. Neither
the count nor the width of a column has a bound here; a formatter that keeps them in 16 bits refuses
those above 65535.
-/
namespace LinProg

structure Report where
  places : Nat := 4
  deriving DecidableEq, Repr

namespace Report
variable {K : Type} [Scalar K]

/-- The number with the report's decimal places nearest to `x`, halves away from zero. It is no
negative zero. -/
def round (r : Report) (x : K) : K :=
  let scale : K := Scalar.tenPow r.places
  Scalar.plainZero (Scalar.nearestWhole (x * scale) / scale)

/-- The rounded number without zeros at the end of its fraction: `2.5`, `100`, `0.3333`. -/
def number (r : Report) (x : K) : String :=
  String.ofList (Decimal.trimFraction (Decimal.fixed r.places (Scalar.exact (r.round x))))

/-- The line of a constraint row, counted from 1. -/
def rowCells (r : Report) (t : Tableau K) (number : Nat) (row : BasicRow K) : List String :=
  ((t.columns.at? row.basic).map Variable.label).getD "?" :: toString number :: "0" ::
    row.toRow.toList.map r.number

/-- The cells of a tableau: a heading, the costs, and a line for each row. -/
def tableauCells (r : Report) (t : Tableau K) : List (List String) :=
  ("BV" :: "EQ" :: t.goal.label :: t.columns.members.map Variable.label ++ ["RHS"]) ::
  (t.goal.label :: "0" :: "1" :: t.costs.toList.map r.number) ::
  t.rows.mapIdx fun i row => r.rowCells t (i + 1) row

/-- A tableau as a grid of numbers. -/
def tableau (r : Report) (t : Tableau K) : String := Text.grid (r.tableauCells t)

/-- The optimal value, and a line for each decision. -/
def solution (r : Report) (s : Solution K) : String :=
  "\n".intercalate (("Optimal value: " ++ r.number s.objectiveValue) ::
    s.values.map fun v => v.1 ++ " = " ++ r.number v.2)

/-- The solution and the number of pivots, after the last tableau if it is asked for. -/
def full (r : Report) (s : Solution K) (showTableau : Bool) : String :=
  (if showTableau then r.tableau s.tableau ++ "\n\n" else "") ++ r.solution s ++ "\n" ++
    "Iterations: " ++ toString s.iterations ++ "\n"

end Report

end LinProg
