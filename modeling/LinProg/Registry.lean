import LinProg.Variable

/-!
The variables of a program in the order of their indices. An index and a name, whatever its letter
case, belong to one variable at most, as long as variables come in through `insert` and `push`.
Indices have no bound here, so there is always a next one. A registry that keeps them in 64 bits
agrees with this one as long as they stay below `wordLimit`.
-/
namespace LinProg

/-- Requests that break the rules of the library. They say that the caller is wrong, not the
problem: nothing that a user types leads to one, except names that clash with those of added
columns. -/
inductive Misuse
  | zeroIndex
  | nameTaken (name : String)
  | indexTaken (index : Nat)
  | alreadyMaximized
  /-- Constraint `number`, counted from 1, says nothing about a variable of the tableau. -/
  | missingCoefficient (number : Nat) (name : String)
  deriving DecidableEq, Repr

def Misuse.message : Misuse → String
  | .zeroIndex => "variable indices are 1-based"
  | .nameTaken name => "variable " ++ name ++ " is already registered"
  | .indexTaken index => "variable index " ++ toString index ++ " is already registered"
  | .alreadyMaximized => "objective function is already a maximization"
  | .missingCoefficient number name =>
    "constraint " ++ toString number ++ " has no coefficient for " ++ name ++
      "; parsed equations cover every variable"

structure Registry where
  members : List Variable := []
  deriving DecidableEq, Repr

namespace Registry

def empty : Registry := {}

/-- `stem1`, …, `stemN` with the indices 1 to `count`. -/
def numbered (stem : String) (count : Nat) : Registry where
  members := (List.range count).map fun i =>
    { name := stem ++ toString (i + 1), index := i + 1, kind := .decision }

/-- The variable in front of the first one with a greater index. -/
def place (v : Variable) : List Variable → List Variable
  | [] => [v]
  | w :: rest => if w.index < v.index then w :: place v rest else v :: w :: rest

/-- Adds a variable with a name and an index of its own. -/
def insert (r : Registry) (v : Variable) : Except Misuse Registry :=
  if v.index = 0 then .error .zeroIndex
  else if r.members.any (·.isNamed v.name) then .error (.nameTaken v.name)
  else if r.members.any (·.index == v.index) then .error (.indexTaken v.index)
  else .ok ⟨place v r.members⟩

/-- The index after the last one, whether or not 64 bits hold it. -/
def nextIndex (r : Registry) : Nat :=
  match r.members.getLast? with
  | none => 1
  | some v => v.index + 1

/-- Adds a variable with the next index behind the others. -/
def push (r : Registry) (name : String) (kind : Kind) : Except Misuse Registry :=
  r.insert { name, index := r.nextIndex, kind }

def size (r : Registry) : Nat := r.members.length

def at? (r : Registry) (column : Nat) : Option Variable := r.members[column]?

/-- The column of the variable with an index. -/
def position? (r : Registry) (index : Nat) : Option Nat :=
  r.members.findIdx? (·.index == index)

def get? (r : Registry) (index : Nat) : Option Variable := (r.position? index).bind r.at?

/-- The variables with a name, whatever its letter case. -/
def matching (r : Registry) (name : String) : List Variable :=
  r.members.filter (·.isNamed name)

def find? (r : Registry) (name : String) : Option Variable :=
  r.members.find? (·.isNamed name)

/-- Sets the alias of the variable with an index, if there is one. -/
def setAlias (r : Registry) (index : Nat) (text : String) : Registry where
  members := r.members.map fun v => if v.index = index then { v with alias? := some text } else v

def retain (r : Registry) (keep : Variable → Bool) : Registry := ⟨r.members.filter keep⟩

def decisions (r : Registry) : List Variable := r.members.filter fun v => !v.kind.isAdded

/-- Whether a column belongs to an artificial variable. -/
def isArtificial (r : Registry) (column : Nat) : Bool := (r.at? column).any Variable.isArtificial

@[simp] theorem size_numbered (stem : String) (count : Nat) :
    (numbered stem count).size = count := by simp [numbered, size]

theorem find?_eq_head?_matching (r : Registry) (name : String) :
    r.find? name = (r.matching name).head? := by
  simp [find?, matching, List.head?_filter]

end Registry

end LinProg
