import LinProg.Equation
import LinProg.Formula.Term
import LinProg.Scalar

/-!
The meaning of an expression: a coefficient for every variable of a registry. Terms with the same
variable add up, and variables that are not mentioned get 0.
-/
namespace LinProg.Formula
variable {K : Type} [Scalar K]

/-- The number with one more digit behind it, unless the product or the sum that make it up take
more than 64 bits. -/
def shiftIn (n : Nat) (digit : Char) : Option Nat := do
  Word.add? (← Word.mul? n 10) (digit.toNat - '0'.toNat)

/-- The number that the digits denote, if 64 bits hold it. -/
def Coefficient.value? (c : Coefficient) : Option Nat := c.digits.toList.foldlM shiftIn 0

/-- The size of a term, 1 where it has no digits. -/
def Term.size (t : Term) : Except ParseError Nat :=
  match t.coefficient? with
  | none => .ok 1
  | some c =>
    match c.value? with
    | some n => .ok n
    | none => .error (.coefficientOverflow c.digits c.span)

/-- Adds a term to an expression. -/
def addTerm (r : Registry) (e : Equation K) (t : Term) : Except ParseError (Equation K) := do
  match r.find? t.name with
  | none => .error (.undeclaredVariable t.name t.nameSpan)
  | some v => return e.add v.index (t.sign.apply (Scalar.ofNat (← t.size)))

/-- The expression that terms denote. -/
def meaning (terms : List Term) (r : Registry) : Except ParseError (Equation K) :=
  terms.foldlM (addTerm r) (Equation.zeros r)

/-- The expression that a text denotes. -/
def read (source : String) (r : Registry) : Except ParseError (Equation K) := do
  meaning (← parse source) r

end LinProg.Formula
