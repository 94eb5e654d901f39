import LinProg.Tableau

/-!
What a solved program reports: the optimal value, the values of the decisions under the texts they
are shown as, and the tableau they were read from.
-/
namespace LinProg

structure Solution (K : Type) where
  objectiveValue : K
  values : List (String × K)
  /-- The number of pivots made. -/
  iterations : Nat
  tableau : Tableau K

namespace Solution
variable {K : Type} [Scalar K]

/-- The values of the columns of decisions, in the order of the columns. -/
def decisionValues (t : Tableau K) : List (String × K) :=
  (t.columns.members.zipIdx.filter fun v => !v.1.kind.isAdded).map fun v =>
    (v.1.label, Scalar.plainZero (t.valueOf v.2))

/-- Reads a solution off the last tableau. No zero in it is negative. -/
def ofTableau (t : Tableau K) (iterations : Nat) : Solution K where
  objectiveValue := Scalar.plainZero t.objectiveValue
  values := decisionValues t
  iterations
  tableau := t

/-- The value under a text, whatever its letter case. -/
def value? (s : Solution K) (name : String) : Option K :=
  (s.values.find? fun v => Text.sameLetters v.1 name).map Prod.snd

end Solution

end LinProg
