import LinProg.Solver.Solve

/-!
The tableaux that a solve passes, from the first to the last before the value of a minimum is
negated back. They are read off the same runs that the solve itself consists of.
-/
namespace LinProg

/-- Where in a solve a tableau stands. -/
inductive Station
  /-- The first tableau, when it has artificial columns. -/
  | built
  /-- Phase 1: the costs are those of the negated sum of the artificial variables. -/
  | phaseOne
  /-- The objective is back in the costs, and the artificial columns are still there. -/
  | restored
  /-- Phase 2 behind phase 1, without artificial columns. -/
  | phaseTwo
  /-- The only phase of a program that needs no artificial columns. -/
  | singlePhase
  deriving DecidableEq, Repr

/-- Whether pivots are made there. -/
def Station.pivots : Station → Bool
  | .built | .restored => false
  | .phaseOne | .phaseTwo | .singlePhase => true

structure Snapshot (K : Type) where
  station : Station
  tableau : Tableau K

namespace Run
variable {K : Type}

/-- The tableau a run starts from, and the one behind each of its pivots. -/
def snapshots (station : Station) (r : Run K) : List (Snapshot K) :=
  ⟨station, r.start⟩ :: r.moves.map fun m => ⟨station, m.after⟩

end Run

def PhaseOne.snapshots {K : Type} : PhaseOne K → List (Snapshot K)
  | .unbounded run | .exhausted run | .infeasible run _ => run.snapshots .phaseOne
  | .stuck run restored _ | .done run restored _ =>
    run.snapshots .phaseOne ++ [⟨.restored, restored⟩]

namespace Solver
variable {K : Type} [Scalar K]

/-- The tableaux of `solveTableau`, in their order. -/
def history (s : Solver K) (t : Tableau K) : List (Snapshot K) :=
  match t.phase with
  | .single => (s.phaseTwo 0 t).snapshots .singlePhase
  | .two =>
    ⟨.built, t⟩ :: (s.phaseOne t).snapshots ++
      match s.ready t with
      | .ok (spent, u) => (s.phaseTwo spent u).snapshots .phaseTwo
      | .error _ => []

end Solver

end LinProg
