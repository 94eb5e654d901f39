/-!
Decimal numerals: a whole significand and a power of ten, and their digits on both sides of the
point. The significand comes from rounding a quotient, the step shared by all decimal output.
-/
namespace LinProg.Decimal

/-- The number `significand * 10 ^ exponent`. -/
structure Numeral where
  significand : Nat
  exponent : Int
  deriving DecidableEq, Repr

namespace Numeral

def digits (n : Numeral) : List Char := Nat.toDigits 10 n.significand

/-- The power of ten of the leading digit. -/
def order (n : Numeral) : Int := n.digits.length - 1 + n.exponent

/-- The digits before the point, a single zero if there are none. -/
def wholeDigits (n : Numeral) : List Char :=
  if 0 ≤ n.exponent then n.digits ++ List.replicate n.exponent.toNat '0'
  else
    let places := (-n.exponent).toNat
    if n.digits.length ≤ places then ['0'] else n.digits.take (n.digits.length - places)

/-- The digits after the point, as many as the exponent asks for. -/
def fractionDigits (n : Numeral) : List Char :=
  if 0 ≤ n.exponent then []
  else
    let places := (-n.exponent).toNat
    List.replicate (places - n.digits.length) '0' ++ n.digits.drop (n.digits.length - places)

/-- The numeral without an exponent, and without a point where nothing follows it. -/
def text (n : Numeral) : List Char :=
  if n.fractionDigits.isEmpty then n.wholeDigits else n.wholeDigits ++ '.' :: n.fractionDigits

/-- Moves zeros at the end of the significand into the exponent, at most `count` of them. -/
def dropZeros : Nat → Numeral → Numeral
  | 0, n => n
  | count + 1, n =>
    if n.significand % 10 = 0 then dropZeros count ⟨n.significand / 10, n.exponent + 1⟩ else n

example : (Numeral.mk 5 (-4)).wholeDigits = ['0'] ∧
    (Numeral.mk 5 (-4)).fractionDigits = ['0', '0', '0', '5'] := by decide

example : (Numeral.mk 1234 (-2)).wholeDigits = ['1', '2'] ∧
    (Numeral.mk 1234 (-2)).fractionDigits = ['3', '4'] := by decide

end Numeral

/-- Where a half goes. -/
inductive Tie
  | up
  | toEven
  deriving DecidableEq, Repr

/-- The choice between `low` and `low + 1` for a number halfway between them. -/
def Tie.choose (tie : Tie) (low : Nat) : Nat :=
  match tie with
  | .up => low + 1
  | .toEven => low + low % 2

/-- The whole number nearest to `num / den`. -/
def nearest (tie : Tie) (num den : Nat) : Nat :=
  let low := num / den
  match compare (2 * (num % den)) den with
  | .lt => low
  | .eq => tie.choose low
  | .gt => low + 1

example : nearest .up 5 2 = 3 ∧ nearest .toEven 5 2 = 2 ∧ nearest .toEven 7 2 = 4 := by decide

end LinProg.Decimal
