/-!
Reading a double from decimal text: an optional sign, digits with a point anywhere among them or at
either end, and an optional exponent; or the name of a special value in any letter case. The text
is read exactly and rounded once.
-/
namespace LinProg.Decimal

/-- The number a run of decimal digits denotes. -/
def ofDigits (digits : List Char) : Nat :=
  digits.foldl (fun n c => 10 * n + (c.toNat - '0'.toNat)) 0

/-- An optional sign and what follows it; the flag tells a minus. -/
def splitSign : List Char → Bool × List Char
  | '+' :: rest => (false, rest)
  | '-' :: rest => (true, rest)
  | rest => (false, rest)

/-- The double nearest to `significand * 10 ^ exponent`. -/
def toFloat (significand : Nat) (exponent : Int) : Float :=
  Float.ofScientific significand (decide (exponent < 0)) exponent.natAbs

/-- The exponent at the end of a literal: nothing, or an `e` with an optional sign and digits up to
the end of the text. -/
def exponent? : List Char → Option Int
  | [] => some 0
  | c :: rest =>
    let (negative, digits) := splitSign rest
    if (c == 'e' || c == 'E') && !digits.isEmpty && digits.all Char.isDigit then
      some (if negative then -(ofDigits digits : Int) else ofDigits digits)
    else none

/-- A literal without its sign. -/
def unsigned? (text : List Char) : Option Float :=
  let whole := text.takeWhile Char.isDigit
  let afterWhole := text.dropWhile Char.isDigit
  let (fraction, rest) := match afterWhole with
    | '.' :: tail => (tail.takeWhile Char.isDigit, tail.dropWhile Char.isDigit)
    | _ => ([], afterWhole)
  if whole.isEmpty && fraction.isEmpty then none
  else (exponent? rest).map fun e => toFloat (ofDigits (whole ++ fraction)) (e - fraction.length)

/-- The names of the special values, in lower case. -/
def named? (text : List Char) : Option Float :=
  let name := String.ofList (text.map Char.toLower)
  if name = "inf" ∨ name = "infinity" then some (1 / 0)
  else if name = "nan" then some (0 / 0)
  else none

/-- The double a text denotes. -/
def read? (text : List Char) : Option Float :=
  let (negative, rest) := splitSign text
  ((named? rest).orElse fun _ => unsigned? rest).map fun x => if negative then -x else x

end LinProg.Decimal
