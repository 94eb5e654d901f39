import LinProg.Decimal.Shortest
import LinProg.Report
import LinProg.Solver.Solve

/-!
The steps of a solve, for a log. They are read off the same runs that the solve itself consists of.
-/
namespace LinProg

inductive Event (K : Type)
  /-- A problem was turned into a program. -/
  | compiled (p : Program K)
  | built (t : Tableau K)
  | initial (t : Tableau K)
  | pivot (stage : Stage) (before : Tableau K) (p : Pivot)
  | pivoted (after : Tableau K)
  | optimal (stage : Stage) (pivots : Nat)
  | unbounded (stage : Stage) (column : Nat)
  | infeasible (residual : K)
  | restored (t : Tableau K)
  | removed (t : Tableau K)
  | solved (iterations : Nat) (objective : K)

namespace Run
variable {K : Type}

/-- The pivots of a run, each between its two tableaux. -/
def moveEvents (stage : Stage) : Tableau K → List (Move K) → List (Event K)
  | _, [] => []
  | t, m :: rest => .pivot stage t m.pivot :: .pivoted m.after :: moveEvents stage m.after rest

def events (stage : Stage) (r : Run K) : List (Event K) :=
  moveEvents stage r.start r.moves ++
    match r.stop with
    | .optimal => [.optimal stage r.length]
    | .unbounded column => [.unbounded stage column]
    | .exhausted => []

end Run

def PhaseOne.events {K : Type} : PhaseOne K → List (Event K)
  | .unbounded run | .exhausted run => run.events .one
  | .infeasible run residual => run.events .one ++ [.infeasible residual]
  | .stuck run restored _ => run.events .one ++ [.restored restored]
  | .done run restored ready => run.events .one ++ [.restored restored, .removed ready]

namespace Solver
variable {K : Type} [Scalar K]

def phaseTwoEvents (s : Solver K) (spent : Nat) (t : Tableau K) : List (Event K) :=
  let run := s.phaseTwo spent t
  run.events .two ++
    match s.phaseTwoResult spent run with
    | .ok solution => [.solved solution.iterations solution.tableau.objectiveValue]
    | .error _ => []

/-- The steps of `solveTableau`. -/
def events (s : Solver K) (t : Tableau K) : List (Event K) :=
  [.built t, .initial t] ++
    (match t.phase with
      | .single => []
      | .two => (s.phaseOne t).events) ++
    match s.ready t with
    | .ok (spent, t) => s.phaseTwoEvents spent t
    | .error _ => []

end Solver

namespace Event

inductive Level
  | debug
  | trace
  deriving DecidableEq, Repr

/-- The value of a field of a log line. -/
inductive Field
  | text (s : String)
  | count (n : Nat)
  deriving DecidableEq, Repr

/-- A line of the log. -/
structure Line where
  level : Level
  message : String
  fields : List (String × Field) := []
  deriving DecidableEq, Repr

def phaseText : Phase → String
  | .single => "SinglePhase"
  | .two => "RequiresTwoPhase"

def directionText : Direction → String
  | .maximize => "Maximize"
  | .minimize => "Minimize"

/-- The line of a step that only shows a tableau. -/
def tableauLine (message : String) (t : Tableau Float) : Line :=
  ⟨.trace, message ++ "\n" ++ ({} : Report).tableau t, []⟩

def columnField (field : String) (t : Tableau Float) (column : Nat) : List (String × Field) :=
  ((t.columns.at? column).map fun v => (field, Field.text v.name)).toList

/-- The pivot of a tableau, with the row counted from 1. -/
def pivotLine (stage : Stage) (t : Tableau Float) (p : Pivot) : Line where
  level := .trace
  message := "pivot"
  fields :=
    match t.rows[p.row]? with
    | none => []
    | some row =>
      ("stage", .text stage.text) :: columnField "entering" t p.column ++
        columnField "leaving" t row.basic ++
        [("row", .count (p.row + 1)),
          ("ratio", .text (Decimal.plain (row.rhs / row.entry p.column)))]

def line : Event Float → Line
  | .compiled p => ⟨.debug, "compiled problem",
      [("variables", .count p.registry.size), ("constraints", .count p.constraints.length),
        ("direction", .text (directionText p.objective.direction))]⟩
  | .built t => ⟨.debug, "built initial tableau",
      [("variables", .count t.columns.size), ("constraints", .count t.rows.length),
        ("phase", .text (phaseText t.phase))]⟩
  | .initial t => tableauLine "initial tableau" t
  | .pivot stage t p => pivotLine stage t p
  | .pivoted t => tableauLine "" t
  | .optimal stage pivots => ⟨.debug, "optimal",
      [("stage", .text stage.text), ("pivots", .count pivots)]⟩
  | .unbounded stage column => ⟨.debug, "no finite ratio; unbounded",
      [("stage", .text stage.text), ("column", .count column)]⟩
  | .infeasible residual => ⟨.debug, "phase 1 optimum is nonzero",
      [("residual", .text (Decimal.plain residual))]⟩
  | .restored t => tableauLine "restored objective" t
  | .removed t => tableauLine "removed artificial variables" t
  | .solved iterations objective => ⟨.debug, "reached optimal tableau",
      [("iterations", .count iterations), ("objective", .text (Decimal.plain objective))]⟩

end Event

end LinProg
