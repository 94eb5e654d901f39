import LinProg.Decimal.Shortest
import LinProg.Equation

/-!
The canonical text of an expression, `3X1 - X2 + 4X3`.
-/
namespace LinProg.Equation

/-- A coefficient other than 0 in front of a name: a sign that joins the term to what stands before
it, and digits unless they would be 1. -/
def termText (leading : Bool) (c : Float) (name : String) : String :=
  let sign := match leading, decide (c < 0) with
    | true, true => "-"
    | true, false => ""
    | false, true => " - "
    | false, false => " + "
  let size := Scalar.magnitude c
  sign ++ (if size == 1 then "" else Decimal.plain size) ++ name

/-- The terms of the variables in their order, without those that are zero or missing. -/
def textFrom (e : Equation Float) : String → List Variable → String
  | text, [] => text
  | text, v :: rest =>
    match e.get? v.index with
    | none => e.textFrom text rest
    | some c =>
      if c == 0 then e.textFrom text rest
      else e.textFrom (text ++ termText text.isEmpty c v.name) rest

/-- An expression without terms is written as 0 times the first variable. -/
def text (e : Equation Float) (r : Registry) : String :=
  let written := e.textFrom "" r.members
  if written.isEmpty then
    match r.members.head? with
    | none => ""
    | some first => "0" ++ first.name
  else written

end LinProg.Equation
