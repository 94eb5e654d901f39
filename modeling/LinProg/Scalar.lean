/-!
The numbers that programs are written in. The tableau method asks only for arithmetic, comparisons
and the exact value of a number. It runs on doubles; on rationals nothing is rounded.
-/
namespace LinProg

/-- What a number stands for: a signed fraction, so that a zero keeps its sign, or one of the
values outside the number line. -/
inductive Exact
  | notANumber
  | infinite (negative : Bool)
  | fraction (negative : Bool) (num den : Nat)
  deriving DecidableEq, Repr

/-- A field-like type with decidable comparisons, in which `==` may identify numbers that are not
equal: the two zeros of a double are an example. -/
class Scalar (K : Type) extends Add K, Sub K, Mul K, Div K, Neg K, Zero K, One K, LT K, LE K,
    BEq K, OfScientific K where
  ltDecidable : DecidableLT K
  leDecidable : DecidableLE K
  /-- The number nearest to a natural number. -/
  ofNat : Nat → K
  exact : K → Exact

attribute [reducible, instance] Scalar.ltDecidable Scalar.leDecidable

namespace Scalar
variable {K : Type} [Scalar K]

/-- Neither infinite nor outside the line. -/
def isFinite (x : K) : Bool :=
  match exact x with
  | .fraction .. => true
  | _ => false

def magnitude (x : K) : K := if x < 0 then -x else x

/-- Every zero becomes the plain one; other numbers stay as they are. -/
def plainZero (x : K) : K := if x == 0 then 0 else x

/-- The whole number nearest to `x`, halves away from zero. A negative number that comes to zero
comes to minus zero. -/
def nearestWhole (x : K) : K :=
  match exact x with
  | .fraction negative num den =>
    let whole : K := ofNat ((2 * num + den) / (2 * den))
    if negative then -whole else whole
  | _ => x

/-- Ten to the power `n`. -/
def tenPow (n : Nat) : K := OfScientific.ofScientific 1 false n

end Scalar

/-- The exact value of a double, read from its sign, significand and binary exponent. -/
def Exact.ofFloat (x : Float) : Exact :=
  match x.toModel.unpack with
  | .notANumber => .notANumber
  | .infinity sign => .infinite (sign == .negative)
  | .zero sign => .fraction (sign == .negative) 0 1
  | .finite sign significand exponent _ =>
    .fraction (sign == .negative) (significand <<< exponent.toNat) (1 <<< (-exponent).toNat)

instance : Scalar Float where
  toAdd := instAddFloat
  toSub := instSubFloat
  toMul := instMulFloat
  toDiv := instDivFloat
  toNeg := instNegFloat
  toZero := ⟨Float.ofNat 0⟩
  toOne := ⟨Float.ofNat 1⟩
  toLT := instLTFloat
  toLE := instLEFloat
  toBEq := instBEqFloat
  toOfScientific := instOfScientificFloat
  ltDecidable := Float.decLt
  leDecidable := Float.decLe
  ofNat := Float.ofNat
  exact := Exact.ofFloat

instance : Scalar Rat where
  toAdd := Rat.instAdd
  toSub := Rat.instSub
  toMul := Rat.instMul
  toDiv := Rat.instDiv
  toNeg := Rat.instNeg
  toZero := ⟨Rat.ofInt 0⟩
  toOne := ⟨Rat.ofInt 1⟩
  toLT := Rat.instLT
  toLE := Rat.instLE
  toBEq := ⟨fun a b => decide (a = b)⟩
  toOfScientific := Rat.instOfScientific
  ltDecidable := Rat.instDecidableLt
  leDecidable := Rat.instDecidableLe
  ofNat n := Rat.ofInt n
  exact q := .fraction (decide (q.num < 0)) q.num.natAbs q.den

@[simp] theorem Scalar.isFinite_rat (q : Rat) : Scalar.isFinite q = true := rfl

/-! Counts and coefficients are kept in 64 bits. Sums and products that these do not hold are
refused. -/

/-- Two to the power 64, the least number that does not fit into 64 bits. -/
def wordLimit : Nat := 18446744073709551616

/-- The sum, if 64 bits hold it. -/
def Word.add? (m n : Nat) : Option Nat := if m + n < wordLimit then some (m + n) else none

/-- The product, if 64 bits hold it. -/
def Word.mul? (m n : Nat) : Option Nat := if m * n < wordLimit then some (m * n) else none

theorem Word.add?_of_lt {m n : Nat} (h : m + n < wordLimit) : add? m n = some (m + n) := if_pos h

theorem Word.mul?_of_lt {m n : Nat} (h : m * n < wordLimit) : mul? m n = some (m * n) := if_pos h

theorem Word.mul?_of_not_lt {m n : Nat} (h : ¬ m * n < wordLimit) : mul? m n = none := if_neg h

end LinProg
