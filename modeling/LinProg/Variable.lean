import LinProg.Text

/-!
Variables of a linear program: those a problem decides on, and those added to bring its constraints
into standard form.
-/
namespace LinProg

inductive Kind
  | decision
  | slack
  | surplus
  | artificial
  deriving DecidableEq, Repr

/-- Every kind but `decision` is added by the method. -/
def Kind.isAdded (kind : Kind) : Bool := kind != .decision

/-- A variable is known by its index; an alias replaces its name where it is shown. -/
structure Variable where
  name : String
  index : Nat
  kind : Kind
  alias? : Option String := none
  deriving DecidableEq, Repr

namespace Variable

/-- The text a variable is shown as. -/
def label (v : Variable) : String := v.alias?.getD v.name

def isNamed (v : Variable) (name : String) : Bool := Text.sameLetters v.name name

def isArtificial (v : Variable) : Bool := v.kind == .artificial

end Variable

end LinProg
