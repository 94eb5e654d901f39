import LinProg.Decimal.Numeral

/-!
The shortest decimal that reads back as a given double. A double stands for all reals that round to
it; of the decimals among them, the one with the fewest digits is taken, and of several with that
many digits the one nearest to the double. As plain text it has neither an exponent nor a point
behind a whole number.
-/
namespace LinProg.Decimal

/-- The positive double `significand * 2 ^ exponent`. -/
structure Binary where
  significand : Nat
  exponent : Int
  deriving DecidableEq, Repr

namespace Binary

/-- The exponent of the smallest doubles. -/
def leastExponent : Int := -1074

/-- Four units of the last place of the significand, so that a quarter of a unit is whole. -/
def value (b : Binary) : Nat := 4 * b.significand

/-- The lower end of the reals that round to `b`. Below a power of two the doubles lie twice as
close, so the end is a quarter of a unit away instead of a half. -/
def lower (b : Binary) : Nat :=
  if b.significand = 1 <<< 52 ∧ leastExponent < b.exponent then b.value - 1 else b.value - 2

def upper (b : Binary) : Nat := b.value + 2

/-- The ends themselves round to `b` when its significand is even. -/
def closed (b : Binary) : Bool := b.significand % 2 = 0

/-- What quarter units are multiplied by to be compared on the grid of multiples of `10 ^ k`. -/
def quarterScale (b : Binary) (k : Int) : Nat := Nat.pow 10 (-k).toNat <<< (b.exponent - 2).toNat

/-- The step of the grid of multiples of `10 ^ k` on the same scale. -/
def gridStep (b : Binary) (k : Int) : Nat := Nat.pow 10 k.toNat <<< (2 - b.exponent).toNat

/-- Whether `d * 10 ^ k` rounds to `b`. -/
def holds (b : Binary) (k : Int) (d : Nat) : Bool :=
  let point := d * b.gridStep k
  let low := b.lower * b.quarterScale k
  let high := b.upper * b.quarterScale k
  if b.closed then low ≤ point && point ≤ high else low < point && point < high

/-- The multiple of `10 ^ k` that rounds to `b` and is nearest to it, if there is one: it is one of
the two neighbours of `b` on the grid. -/
def onGrid? (tie : Tie) (b : Binary) (k : Int) : Option Nat :=
  let num := b.value * b.quarterScale k
  let den := b.gridStep k
  let low := num / den
  match b.holds k low, b.holds k (low + 1) with
  | true, true => some (nearest tie num den)
  | true, false => some low
  | false, true => some (low + 1)
  | false, false => none

/-- The power of ten of the leading digit of the leading bit of `b`, from `log 2 = 0.30103`. -/
def orderGuess (b : Binary) : Int := ((b.significand.log2 : Int) + b.exponent) * 30103 / 100000

/-- The least power of ten above `b`. -/
def order (b : Binary) : Int :=
  let above (k : Int) : Bool := b.value * b.quarterScale k < b.gridStep k
  if above b.orderGuess then b.orderGuess
  else if above (b.orderGuess + 1) then b.orderGuess + 1
  else b.orderGuess + 2

/-- The shortest decimal that rounds to `b`. Seventeen digits always suffice. -/
def shortest (tie : Tie) (b : Binary) : Numeral :=
  let found := (List.range 17).findSome? fun n =>
    let k := b.order - (n + 1 : Nat)
    (b.onGrid? tie k).map fun d => Numeral.mk d k
  (found.getD ⟨b.value, 0⟩).dropZeros 17

end Binary

/-- A double by its parts: a special value, or a sign and the rest. -/
inductive Parts
  | notANumber
  | infinite (negative : Bool)
  | zero (negative : Bool)
  | nonzero (negative : Bool) (size : Binary)
  deriving DecidableEq, Repr

def Parts.ofFloat (x : Float) : Parts :=
  match x.toModel.unpack with
  | .notANumber => .notANumber
  | .infinity sign => .infinite (sign == .negative)
  | .zero sign => .zero (sign == .negative)
  | .finite sign significand exponent _ => .nonzero (sign == .negative) ⟨significand, exponent⟩

/-- A double as text. The sign of a zero is kept; of two equally short and equally near numerals
the upper one is taken. -/
def plain (x : Float) : String :=
  let signed (negative : Bool) (text : List Char) : String :=
    String.ofList (if negative then '-' :: text else text)
  match Parts.ofFloat x with
  | .notANumber => "NaN"
  | .infinite negative => signed negative ['i', 'n', 'f']
  | .zero negative => signed negative ['0']
  | .nonzero negative size => signed negative (size.shortest .up).text

end LinProg.Decimal
