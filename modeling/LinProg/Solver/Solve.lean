import LinProg.Decimal.Shortest
import LinProg.Solution
import LinProg.Solver.Run

/-!
The two-phase method. Phase 1 drives the artificial variables of the first tableau to zero and
removes them; phase 2 maximizes the objective.
-/
namespace LinProg

inductive Stage
  | one
  | two
  deriving DecidableEq, Repr

def Stage.text : Stage → String
  | .one => "phase 1"
  | .two => "phase 2"

/-- Why a program has no reported optimum. -/
inductive SolveError (K : Type)
  /-- The program breaks the rules of the library. -/
  | misuse (m : Misuse)
  | unbounded (stage : Stage)
  /-- The artificial variables cannot all be zero; `residual` is their least sum. -/
  | infeasible (residual : K)
  /-- Phase 1 ended with a row still solved for an artificial variable. -/
  | artificialInBasis (name : String)
  | iterationLimit (limit : Nat)
  deriving DecidableEq, Repr

def SolveError.message : SolveError Float → String
  | .misuse m => m.message
  | .unbounded stage =>
    "The LP is unbounded and cannot be solved (detected in " ++ stage.text ++ ")"
  | .infeasible residual =>
    "The LP is infeasible: phase 1 ended with artificial sum " ++ Decimal.plain residual
  | .artificialInBasis name =>
    "Artificial variable " ++ name ++ " is a basic variable after phase 1 completed"
  | .iterationLimit limit => "No optimum reached within " ++ toString limit ++ " pivots"

/-- How phase 1 went. -/
inductive PhaseOne (K : Type)
  | unbounded (run : Run K)
  | exhausted (run : Run K)
  | infeasible (run : Run K) (residual : K)
  | stuck (run : Run K) (restored : Tableau K) (name : String)
  /-- `ready` is free of artificial columns and holds the objective. -/
  | done (run : Run K) (restored ready : Tableau K)

namespace Solver
variable {K : Type} [Scalar K]

/-- Phase 1 from the first tableau, with the whole budget. -/
def phaseOne (s : Solver K) (t : Tableau K) : PhaseOne K :=
  let run := s.run s.maxIterations t.negateCosts
  match run.stop with
  | .unbounded _ => .unbounded run
  | .exhausted => .exhausted run
  | .optimal =>
    let residual := -run.last.objectiveValue
    if s.feasibilityTolerance < Scalar.magnitude residual then .infeasible run residual
    else
      let restored := run.last.enterObjective
      match restored.removeArtificials with
      | .error name => .stuck run restored name
      | .ok ready => .done run restored ready

/-- The pivots made in phase 1 and the tableau that phase 2 starts from. -/
def phaseOneResult (s : Solver K) : PhaseOne K → Except (SolveError K) (Nat × Tableau K)
  | .unbounded _ => .error (.unbounded .one)
  | .exhausted _ => .error (.iterationLimit s.maxIterations)
  | .infeasible _ residual => .error (.infeasible residual)
  | .stuck _ _ name => .error (.artificialInBasis name)
  | .done run _ ready => .ok (run.length, ready)

/-- Phase 2, with what phase 1 left of the budget. -/
def phaseTwo (s : Solver K) (spent : Nat) (t : Tableau K) : Run K :=
  s.run (s.maxIterations - spent) t

/-- The solution at the end of phase 2. -/
def phaseTwoResult (s : Solver K) (spent : Nat) (run : Run K) :
    Except (SolveError K) (Solution K) :=
  match run.stop with
  | .unbounded _ => .error (.unbounded .two)
  | .exhausted => .error (.iterationLimit s.maxIterations)
  | .optimal => .ok (.ofTableau run.last.finish (spent + run.length))

/-- Where phase 2 starts. -/
def ready (s : Solver K) (t : Tableau K) : Except (SolveError K) (Nat × Tableau K) :=
  match t.phase with
  | .single => .ok (0, t)
  | .two => s.phaseOneResult (s.phaseOne t)

/-- Solves a program from its first tableau. -/
def solveTableau (s : Solver K) (t : Tableau K) : Except (SolveError K) (Solution K) := do
  let (spent, t) ← s.ready t
  s.phaseTwoResult spent (s.phaseTwo spent t)

def solve (s : Solver K) (p : Program K) : Except (SolveError K) (Solution K) :=
  match Tableau.build p with
  | .error m => .error (.misuse m)
  | .ok t => s.solveTableau t

end Solver

end LinProg
