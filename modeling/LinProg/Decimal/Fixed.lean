import LinProg.Scalar
import LinProg.Decimal.Numeral

/-!
Numbers with a fixed count of decimal places, from their exact values.
-/
namespace LinProg.Decimal

/-- The nonnegative number `num / den` with `places` digits after the point, halves to even. -/
def fixedDigits (places num den : Nat) : List Char :=
  Numeral.text ⟨nearest .toEven (num * Nat.pow 10 places) den, -(places : Int)⟩

/-- A number with `places` digits after the point. -/
def fixed (places : Nat) : Exact → List Char
  | .notANumber => ['N', 'a', 'N']
  | .infinite negative => if negative then ['-', 'i', 'n', 'f'] else ['i', 'n', 'f']
  | .fraction negative num den =>
    let text := fixedDigits places num den
    if negative then '-' :: text else text

/-- The list without the characters `c` at its end. -/
def trimEnd (c : Char) (cs : List Char) : List Char := (cs.reverse.dropWhile (· == c)).reverse

/-- The same number without zeros at the end of its fraction, and without a bare point. -/
def trimFraction (text : List Char) : List Char :=
  if text.contains '.' then trimEnd '.' (trimEnd '0' text) else text

example : trimFraction (fixed 4 (.fraction true 5 2)) = ['-', '2', '.', '5'] ∧
    trimFraction (fixed 4 (.fraction false 100 1)) = ['1', '0', '0'] := by decide

end LinProg.Decimal
