import LinProg.Solver.Choice

/-!
Runs of pivots from a tableau until there is none left to make or the budget is spent.
-/
namespace LinProg

/-- Why a run ended. -/
inductive Stop
  | optimal
  | unbounded (column : Nat)
  /-- There was a pivot to make, and no budget for it. -/
  | exhausted
  deriving DecidableEq, Repr

/-- A pivot and the tableau it led to. -/
structure Move (K : Type) where
  pivot : Pivot
  after : Tableau K

structure Run (K : Type) where
  start : Tableau K
  moves : List (Move K)
  stop : Stop

namespace Run
variable {K : Type}

/-- The number of pivots. -/
def length (r : Run K) : Nat := r.moves.length

def last (r : Run K) : Tableau K := (r.moves.getLast?.map Move.after).getD r.start

end Run

namespace Solver
variable {K : Type} [Scalar K]

/-- Pivots from `t` on; `made` holds the moves before it, the latest first. -/
def runFrom (s : Solver K) (start : Tableau K) : Nat → List (Move K) → Tableau K → Run K
  | budget, made, t =>
    match s.verdict t with
    | .optimal => ⟨start, made.reverse, .optimal⟩
    | .unbounded column => ⟨start, made.reverse, .unbounded column⟩
    | .pivot p =>
      match budget with
      | 0 => ⟨start, made.reverse, .exhausted⟩
      | budget + 1 => s.runFrom start budget (⟨p, t.pivot p⟩ :: made) (t.pivot p)

/-- Makes pivots until the tableau is optimal or shows the program to be unbounded, at most as many
as the budget allows. -/
def run (s : Solver K) (budget : Nat) (t : Tableau K) : Run K := s.runFrom t budget [] t

theorem runFrom_eq (s : Solver K) (start t : Tableau K) (budget : Nat) (made : List (Move K)) :
    s.runFrom start budget made t =
      ⟨start, made.reverse ++ (s.run budget t).moves, (s.run budget t).stop⟩ := by
  have h : ∀ (budget : Nat) (made made' : List (Move K)) (start t : Tableau K),
      s.runFrom start budget (made ++ made') t =
        ⟨start, made'.reverse ++ (s.runFrom t budget made t).moves,
          (s.runFrom t budget made t).stop⟩ := by
    intro budget
    induction budget with
    | zero =>
      intro made made' start t
      unfold runFrom
      split <;> simp
    | succ n ih =>
      intro made made' start t
      unfold runFrom
      split
      · simp
      · simp
      · rename_i p _
        have a := ih (⟨p, t.pivot p⟩ :: made) made' start (t.pivot p)
        have b := ih (⟨p, t.pivot p⟩ :: made) [] t (t.pivot p)
        simp only [List.cons_append, List.append_nil, List.reverse_nil, List.nil_append] at a b
        simp only [a, b]
  simpa [run] using h budget [] made start t

/-- A run whose first tableau asks for a pivot is that pivot and the run behind it. -/
theorem run_succ (s : Solver K) (budget : Nat) {t : Tableau K} {p : Pivot}
    (h : s.verdict t = .pivot p) :
    s.run (budget + 1) t =
      ⟨t, ⟨p, t.pivot p⟩ :: (s.run budget (t.pivot p)).moves, (s.run budget (t.pivot p)).stop⟩ := by
  rw [run, runFrom]
  simp only [h]
  rw [runFrom_eq]
  simp

end Solver

end LinProg
