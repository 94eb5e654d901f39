import LinProg.Program

/-!
Simplex tableaux: the constraints of a program as equations between columns, each solved for one
basic column, above them a row of reduced costs, and on the right the values.
-/
namespace LinProg

/-- One row of numbers: an entry for each column, and the right-hand side. -/
structure Row (K : Type) where
  entries : List K
  rhs : K
  deriving DecidableEq, Repr

namespace Row
variable {K : Type}

def toList (r : Row K) : List K := r.entries ++ [r.rhs]

/-- The entry of a column. The right-hand side counts as the column behind the last. -/
def entry (r : Row K) (column : Nat) : K := r.entries.getD column r.rhs

def map (f : K → K) (r : Row K) : Row K := ⟨r.entries.map f, f r.rhs⟩

def zipWith (f : K → K → K) (r s : Row K) : Row K :=
  ⟨List.zipWith f r.entries s.entries, f r.rhs s.rhs⟩

/-- Subtracts the multiple of `pivotRow` that clears a column in which that row is 1. -/
def eliminate [Scalar K] (r : Row K) (column : Nat) (pivotRow : Row K) : Row K :=
  let factor := r.entry column
  if factor == 0 then r else r.zipWith (fun value p => value - factor * p) pivotRow

@[simp] theorem length_toList (r : Row K) : r.toList.length = r.entries.length + 1 := by
  simp [toList]

@[simp] theorem entry_map (f : K → K) (r : Row K) (column : Nat) :
    (r.map f).entry column = f (r.entry column) := by
  by_cases h : column < r.entries.length <;> simp [entry, map, List.getD_eq_getElem?_getD, h]

theorem entry_zipWith (f : K → K → K) {r s : Row K} (h : r.entries.length = s.entries.length)
    (column : Nat) : (r.zipWith f s).entry column = f (r.entry column) (s.entry column) := by
  simp only [entry, zipWith, List.getD_eq_getElem?_getD, List.getElem?_zipWith]
  by_cases hc : column < r.entries.length
  · rw [List.getElem?_eq_getElem hc, List.getElem?_eq_getElem (h ▸ hc)]
    rfl
  · rw [List.getElem?_eq_none (by omega), List.getElem?_eq_none (by omega)]
    rfl

@[simp] theorem length_entries_map (f : K → K) (r : Row K) :
    (r.map f).entries.length = r.entries.length := by simp [map]

theorem length_entries_eliminate [Scalar K] {r pivotRow : Row K}
    (h : r.entries.length = pivotRow.entries.length) (column : Nat) :
    (r.eliminate column pivotRow).entries.length = r.entries.length := by
  unfold eliminate
  dsimp only
  split <;> simp [zipWith, h]

end Row

/-- A row that is solved for its basic column. -/
structure BasicRow (K : Type) extends Row K where
  basic : Nat
  deriving DecidableEq, Repr

/-- Whether artificial variables have to be driven out first. -/
inductive Phase
  | single
  | two
  deriving DecidableEq, Repr

/-- What the row of costs stands for: the objective, or the sum of the artificial variables. -/
inductive Goal
  | objective
  | artificials
  deriving DecidableEq, Repr

def Goal.label : Goal → String
  | .objective => "Z"
  | .artificials => "W"

structure Tableau (K : Type) where
  columns : Registry
  costs : Row K
  rows : List (BasicRow K)
  phase : Phase
  /-- The program minimizes, so its objective is entered negated. -/
  minimizes : Bool
  /-- The expression to be maximized. -/
  objective : Equation K
  goal : Goal

namespace Tableau
variable {K : Type}

/-- The position of the right-hand side among the entries of a row. -/
def rhsColumn (t : Tableau K) : Nat := t.costs.entries.length

def objectiveValue (t : Tableau K) : K := t.costs.rhs

/-- All numbers, row by row, the costs first. -/
def matrix (t : Tableau K) : List (List K) := t.costs.toList :: t.rows.map fun r => r.toRow.toList

def basis (t : Tableau K) : List Nat := t.rows.map BasicRow.basic

/-- The value of a column when all columns outside the basis are zero. -/
def valueOf [Scalar K] (t : Tableau K) (column : Nat) : K :=
  match t.rows.find? (·.basic == column) with
  | some row => row.rhs
  | none => 0

def isArtificial (t : Tableau K) (column : Nat) : Bool := t.columns.isArtificial column

end Tableau

end LinProg
