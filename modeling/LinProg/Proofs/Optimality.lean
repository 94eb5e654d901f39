import LinProg.Proofs.Solved

/-!
With tolerance zero a solution is an optimum. The costs of the last tableau bound the objective at
every feasible point by its value at the point that is reported.
-/
namespace LinProg

/-- If no cost is negative, no nonnegative values score more than the right-hand side. -/
lemma Tableau.score_le {t : Tableau ℚ} (ht : t.Rectangular)
    (hc : ∀ j < t.columns.size, 0 ≤ t.costs.entry j) {x : ℕ → ℚ}
    (hx : ∀ j < t.columns.size, 0 ≤ x j) : t.score x ≤ t.costs.rhs := by
  rw [score,Row.residual,sub_le_self_iff]
  apply Row.dot_nonneg
  intro j hj
  rw [ht.costs_length] at hj
  exact mul_nonneg (hc j hj) (hx j hj)

namespace Solver
variable {s : Solver ℚ} {p : Program ℚ}

lemma costs_nonneg_of_optimal (hs : s.tolerance = 0) {t : Tableau ℚ} (ht : t.Rectangular)
    (h : s.verdict t = .optimal) : ∀ j < t.columns.size, 0 ≤ t.costs.entry j := by
  intro j hj
  have := s.costs_of_optimal h (ht.costs_length ▸ hj)
  rwa [hs,neg_zero] at this

/-- A solution names the variables of the program and gives them feasible values; the objective is
what it says there, and no feasible point is better. -/
theorem solution_optimal (hs : s.tolerance = 0) (hp : p.Covered) {sol : Solution ℚ}
    (h : s.solve p = .ok sol) :
    sol.values.map Prod.fst = p.registry.members.map Variable.label ∧
    p.Feasible (sol.pointOf p.registry) ∧
    sol.objectiveValue = p.valueAt (sol.pointOf p.registry) ∧
    ∀ y, p.Feasible y → ¬ p.objective.direction.Better (p.valueAt y) sol.objectiveValue := by
  obtain ⟨t,v,-,hv,hnonneg,hopt,hread⟩ := exists_of_solve_eq_ok hs.ge hp h
  have hn := hnonneg (neverOvershoots_of_tolerance_zero hs)
  have hsolves := hv.canonical.solves_valueOf
  rw [hread.point,hread.value]
  refine ⟨hread.labels,hv.feasible_of_solves hsolves fun j _ => hn.valueOf j,rfl,fun y hy => ?_⟩
  rw [p.better_iff,not_lt]
  obtain ⟨x,hx,hx0,rfl⟩ := hv.exists_of_feasible hp.ordered hy
  rw [← hv.score x hx,← hv.score _ hsolves,hv.canonical.score_valueOf]
  have hrect := hv.canonical.toRectangular
  exact Tableau.score_le hrect (costs_nonneg_of_optimal hs hrect hopt) hx0

/-- A solver without tolerances. -/
def exact (maxIterations : ℕ) : Solver ℚ where
  maxIterations := maxIterations
  tolerance := 0
  feasibilityTolerance := 0

/-- Minimizes `2X1 + 3X2` where `X1 + X2 >= 4`, `X1 - X2 = 1` and `-X1 <= -1`. -/
def mixedProgram : Program ℚ where
  registry := .numbered "X" 2
  objective := ⟨.ofList [(1,2),(2,3)],.minimize⟩
  constraints := [⟨.ofList [(1,1),(2,1)],.atLeast,4⟩,⟨.ofList [(1,1),(2,-1)],.equal,1⟩,
    ⟨.ofList [(1,-1),(2,0)],.atMost,-1⟩]

lemma covered_mixedProgram : mixedProgram.Covered :=
  ⟨Registry.ordered_numbered "X" 2,by decide,by decide⟩

theorem solution_optimal_mixed : ∃ sol, (exact 100).solve mixedProgram = .ok sol ∧
    sol.objectiveValue = 19/2 ∧ mixedProgram.Feasible (sol.pointOf mixedProgram.registry) ∧
    ∀ y, mixedProgram.Feasible y → ¬ mixedProgram.valueAt y < sol.objectiveValue := by
  have hvalue : ((exact 100).solve mixedProgram).toOption.map Solution.objectiveValue =
      some (19/2) := by decide +kernel
  obtain ⟨sol,hsol,hobjective⟩ := Option.map_eq_some_iff.mp hvalue
  have h := Except.toOption_eq_some.mp hsol
  obtain ⟨-,hfeasible,-,hbest⟩ := solution_optimal rfl covered_mixedProgram h
  exact ⟨sol,h,hobjective,hfeasible,hbest⟩

end Solver

end LinProg
