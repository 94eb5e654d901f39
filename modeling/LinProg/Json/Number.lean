import LinProg.Decimal.Literal
import LinProg.Decimal.Shortest
import LinProg.Scalar

/-!
Numbers of JSON documents: their written form, the naturals and doubles that are read from it, and
the one a double is written in.
-/
namespace LinProg

/-- A number as it is written: digits before the point, behind it, and in the exponent. -/
structure JsonNumber where
  negative : Bool := false
  whole : List Char
  fraction : List Char := []
  /-- The sign of the exponent, whether it is a minus, and its digits. -/
  exponent? : Option (Bool × List Char) := none
  deriving DecidableEq, Repr

namespace JsonNumber

/-- The value of a number written as a natural number of 64 bits. -/
def toNat? (n : JsonNumber) : Option Nat :=
  if n.negative || !n.fraction.isEmpty || n.exponent?.isSome then none
  else
    let value := Decimal.ofDigits n.whole
    if value < wordLimit then some value else none

/-- Digits gathered into 64 bits, and the power of ten of the last of them. -/
structure Gathered where
  significand : Nat
  exponent : Int := 0
  /-- No further digit is taken in. -/
  full : Bool := false

namespace Gathered

/-- The significand with a digit behind it, if that still has 64 bits. -/
def shiftIn? (g : Gathered) (digit : Char) : Option Nat :=
  let next := 10 * g.significand + (digit.toNat - '0'.toNat)
  if next < wordLimit then some next else none

/-- A digit before the point. Once one does not fit, it and all behind it count as zeros. -/
def whole (g : Gathered) (digit : Char) : Gathered :=
  if g.full then { g with exponent := g.exponent + 1 }
  else
    match g.shiftIn? digit with
    | some next => { g with significand := next }
    | none => { g with exponent := 1, full := true }

/-- A digit behind the point. Once one does not fit, it and all behind it are left out. -/
def fraction (g : Gathered) (digit : Char) : Gathered :=
  if g.full then g
  else
    match g.shiftIn? digit with
    | some next => { g with significand := next, exponent := g.exponent - 1 }
    | none => { g with full := true }

end Gathered

/-- The digits of a number, gathered. -/
def gathered (n : JsonNumber) : Gathered :=
  let g := n.whole.foldl Gathered.whole { significand := 0 }
  n.fraction.foldl Gathered.fraction { g with full := false }

/-- The exponent that is written out. -/
def exponent (n : JsonNumber) : Int :=
  match n.exponent? with
  | none => 0
  | some (negative, digits) =>
    if negative then -(Decimal.ofDigits digits : Int) else Decimal.ofDigits digits

/-- `x * 10 ^ exponent` in steps of at most 308 powers of ten, each rounded. It fails if the number
is too large for a double. -/
def scale? : Nat → Float → Int → Option Float
  | 0, x, _ => some x
  | steps + 1, x, exponent =>
    if exponent.natAbs ≤ 308 then
      let power := Float.ofScientific 1 false exponent.natAbs
      if exponent < 0 then some (x / power)
      else
        let y := x * power
        if y.isInf then none else some y
    else if x == 0 then some x
    else if 0 ≤ exponent then none
    else scale? steps (x / Float.ofScientific 1 false 308) (exponent + 308)

/-- The double of a number: the gathered digits as a double, times the power of ten. Four steps
bring any significand to zero. -/
def toFloat? (n : JsonNumber) : Option Float :=
  let g := n.gathered
  (scale? 4 (Float.ofNat g.significand) (g.exponent + n.exponent)).map fun x =>
    if n.negative then -x else x

/-- A number as it is written. -/
def write (n : JsonNumber) : String :=
  String.ofList <| (if n.negative then ['-'] else []) ++ n.whole ++
    (if n.fraction.isEmpty then [] else '.' :: n.fraction) ++
    match n.exponent? with
    | none => []
    | some (negative, digits) => 'e' :: (if negative then '-' else '+') :: digits

def ofNat (value : Nat) : JsonNumber := { whole := Nat.toDigits 10 value }

/-- A numeral with a sign. From `0.00001` to below `10 ^ 16` it has digits on both sides of the
point; elsewhere it has one digit before the point, and an exponent. -/
def ofNumeral (negative : Bool) (n : Decimal.Numeral) : JsonNumber :=
  if -5 ≤ n.order ∧ n.order ≤ 15 then
    { negative
      whole := n.wholeDigits
      fraction := if n.fractionDigits.isEmpty then ['0'] else n.fractionDigits }
  else
    { negative
      whole := n.digits.take 1
      fraction := n.digits.drop 1
      exponent? := some (decide (n.order < 0), Nat.toDigits 10 n.order.natAbs) }

/-- The shortest number that reads back as a double; there is none for the special values. Of two
equally short and equally near ones the even one is taken. -/
def ofFloat? (x : Float) : Option JsonNumber :=
  match Decimal.Parts.ofFloat x with
  | .notANumber | .infinite _ => none
  | .zero negative => some (ofNumeral negative ⟨0, 0⟩)
  | .nonzero negative size => some (ofNumeral negative (size.shortest .toEven))

end JsonNumber

end LinProg
