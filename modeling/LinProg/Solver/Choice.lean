import LinProg.Tableau.Pivot

/-!
The choice of a pivot: the column of the most negative cost, and in it the row of the least ratio
between right-hand side and entry. Of equals the first is taken.
-/
namespace LinProg

/-- The limits of a solve. -/
structure Solver (K : Type) [Scalar K] where
  /-- The most pivots that both stages may make together. -/
  maxIterations : Nat := 10000
  /-- How far a cost has to be below zero, and an entry away from it, to count. -/
  tolerance : K := 1e-10
  /-- The greatest sum of artificial variables that counts as zero. -/
  feasibilityTolerance : K := 1e-9

/-- What can be done with a tableau. -/
inductive Verdict
  | optimal
  /-- The column improves the objective, and no row limits it. -/
  | unbounded (column : Nat)
  | pivot (p : Pivot)
  deriving DecidableEq, Repr

namespace Solver
variable {K : Type} [Scalar K]

/-- The first pair with the least number: each is compared with the best before it. -/
def firstLeast : List (Nat × K) → Option (Nat × K)
  | [] => none
  | first :: rest =>
    some (rest.foldl (fun best next => if next.2 < best.2 then next else best) first)

/-- The column to enter the basis, if any improves the objective. -/
def entering? (s : Solver K) (t : Tableau K) : Option Nat :=
  ((firstLeast (t.costs.entries.zipIdx.map Prod.swap)).filter fun best => best.2 < -s.tolerance).map
    Prod.fst

/-- The ratio of a row that limits the column. A right-hand side of zero limits it only against a
positive entry. -/
def ratio? (s : Solver K) (row : Row K) (column : Nat) : Option K :=
  let entry := row.entry column
  if Scalar.magnitude entry ≤ s.tolerance then none
  else
    let ratio := row.rhs / entry
    if 0 < ratio ∨ (ratio == 0) = true ∧ 0 < entry then some ratio else none

/-- The row to leave the basis, if any limits the column. -/
def leaving? (s : Solver K) (t : Tableau K) (column : Nat) : Option Nat :=
  (firstLeast (t.rows.zipIdx.filterMap fun row =>
    (s.ratio? row.1.toRow column).map fun ratio => (row.2, ratio))).map Prod.fst

def verdict (s : Solver K) (t : Tableau K) : Verdict :=
  match s.entering? t with
  | none => .optimal
  | some column =>
    match s.leaving? t column with
    | none => .unbounded column
    | some row => .pivot ⟨row, column⟩

end Solver

end LinProg
