import LinProg.Scalar
import LinProg.Formula.Token

/-!
The form of an expression, `[sign] [digits]name ((+|-) [digits]name)*`, and the texts that fail to
have it. Reading stops at the first character with which the text can no longer become one.
-/
namespace LinProg.Formula

inductive Sign
  | plus
  | minus
  deriving DecidableEq, Repr

def Sign.apply {K : Type} [Scalar K] : Sign → K → K
  | .plus, x => x
  | .minus, x => -x

/-- The digits of a coefficient as they are written. -/
structure Coefficient where
  span : Span
  digits : String
  deriving DecidableEq, Repr

structure Term where
  /-- From the sign, if there is one, to the end of the name. -/
  span : Span
  sign : Sign
  /-- A missing coefficient is 1. -/
  coefficient? : Option Coefficient
  name : String
  nameSpan : Span
  deriving DecidableEq, Repr

inductive ParseError
  /-- The text could go on to be an expression. -/
  | incomplete (offset : Nat) (text : String)
  | invalidCharacter (found : Char) (offset : Nat) (text : String)
  | undeclaredVariable (name : String) (span : Span)
  /-- The digits denote `2 ^ 64` or more. -/
  | coefficientOverflow (digits : String) (span : Span)
  deriving DecidableEq, Repr

namespace ParseError

def message : ParseError → String
  | .incomplete _ text => "Your equation is incomplete: " ++ text
  | .invalidCharacter found offset text =>
    "Invalid character <" ++ found.toString ++ "> at index " ++ toString offset ++
      " in equation: " ++ text
  | .undeclaredVariable name span =>
    "Undeclared variable " ++ name ++ " at index " ++ toString span.start
  | .coefficientOverflow digits _ => "Coefficient " ++ digits ++ " is too large"

/-- Where in the text the fault is. -/
def offset : ParseError → Nat
  | .incomplete offset _ => offset
  | .invalidCharacter _ offset _ => offset
  | .undeclaredVariable _ span => span.start
  | .coefficientOverflow _ span => span.start

/-- The name that is not declared, if that is the fault. -/
def undeclared? : ParseError → Option String
  | .undeclaredVariable name _ => some name
  | _ => none

/-- The error for a text that cannot go on as it does at `offset`. -/
def invalidAt (source : String) (offset : Nat) : ParseError :=
  match Text.charAt? source.toList offset with
  | some found => .invalidCharacter found offset source
  | none => .incomplete offset source

end ParseError

/-- How far the term being read has come. -/
inductive Progress
  /-- Nothing of the text has been read. -/
  | opening
  /-- A sign has been read. -/
  | signed (sign : Sign) (span : Span)
  /-- Digits have been read, perhaps after a sign. -/
  | counted (sign? : Option (Sign × Span)) (coefficient : Coefficient)
  /-- A term has just ended. -/
  | closed
  deriving DecidableEq, Repr

namespace Progress

/-- The sign in front of the term, if one has been read. -/
def sign? : Progress → Option (Sign × Span)
  | .signed sign span => some (sign, span)
  | .counted sign? _ => sign?
  | _ => none

def coefficient? : Progress → Option Coefficient
  | .counted _ coefficient => some coefficient
  | _ => none

/-- The term that a name ends. -/
def close (p : Progress) (name : Token) : Term :=
  let start := ((p.sign?.map Prod.snd).orElse fun _ => p.coefficient?.map Coefficient.span).getD
    name.span
  { span := start.merge name.span
    sign := (p.sign?.map Prod.fst).getD .plus
    coefficient? := p.coefficient?
    name := String.ofList name.text
    nameSpan := name.span }

end Progress

/-- What a token does to a term being read. -/
inductive Step
  | next (p : Progress)
  /-- The name ends a term. -/
  | term (t : Term)
  /-- The text is an expression. -/
  | done
  /-- The text cannot go on as it does at `offset`. -/
  | invalid (offset : Nat)
  deriving DecidableEq, Repr

/-- One token read. A name has to stand right behind its coefficient; elsewhere white space does not
matter. -/
def step : Progress → Token → Step
  | .opening, t =>
    match t.kind with
    | .plus => .next (.signed .plus t.span)
    | .minus => .next (.signed .minus t.span)
    | .number => .next (.counted none ⟨t.span, String.ofList t.text⟩)
    | .name => .term (Progress.opening.close t)
    | .finish | .unknown => .invalid t.span.start
  | .signed sign span, t =>
    match t.kind with
    | .number => .next (.counted (some (sign, span)) ⟨t.span, String.ofList t.text⟩)
    | .name => .term ((Progress.signed sign span).close t)
    | .plus | .minus | .finish | .unknown => .invalid t.span.start
  | .counted sign? coefficient, t =>
    match t.kind with
    | .name =>
      if t.span.start = coefficient.span.stop then
        .term ((Progress.counted sign? coefficient).close t)
      else .invalid coefficient.span.stop
    | .number | .plus | .minus | .finish | .unknown => .invalid t.span.start
  | .closed, t =>
    match t.kind with
    | .plus => .next (.signed .plus t.span)
    | .minus => .next (.signed .minus t.span)
    | .finish => .done
    | .number | .name | .unknown => .invalid t.span.start

/-- The terms that tokens spell, from a term being read on. The last token is to be the end of the
text. -/
def termsFrom (source : String) : Progress → List Token → Except ParseError (List Term)
  | _, [] => .error (.incomplete (Text.size source.toList) source)
  | p, t :: rest =>
    match step p t with
    | .next p => termsFrom source p rest
    | .term term => (termsFrom source .closed rest).map (term :: ·)
    | .done => .ok []
    | .invalid offset => .error (.invalidAt source offset)

/-- The terms of an expression. -/
def parse (source : String) : Except ParseError (List Term) :=
  termsFrom source .opening (tokens source)

end LinProg.Formula
