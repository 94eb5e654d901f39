import LinProg.Proofs.Compiled
import LinProg.Proofs.Solved

/-!
Solutions under a tolerance. Equations hold exactly in every solution; what can fail is a sign, and
it fails exactly where the last tableau has a negative right-hand side. That takes a pivot that
oversteps a row whose entry is within the tolerance.
-/
namespace LinProg

namespace Tableau

/-- What is true of zero is true of all values if it is true of the right-hand sides. -/
lemma Canonical.forall_valueOf_iff {t : Tableau ℚ} (ht : t.Canonical) {P : ℚ → Prop} (h0 : P 0) :
    (∀ j < t.columns.size, P (t.valueOf j)) ↔ ∀ r ∈ t.rows, P r.rhs := by
  constructor
  · intro h r hr
    obtain ⟨k,hk,rfl⟩ := List.getElem_of_mem hr
    rw [← ht.valueOf_basic hk]
    exact h _ (ht.basic_lt _ hr)
  · intro h j _
    unfold valueOf
    split
    case h_1 r hr => exact h r (List.mem_of_find?_eq_some hr)
    case h_2 => exact h0

/-- A solution is feasible up to `ε` exactly if no column is below `-ε`. -/
theorem Represents.holdsWithin_iff {t : Tableau ℚ} {p : Program ℚ} (h : t.Represents p)
    (ho : p.registry.Ordered) {ε : ℚ} (hε : 0 ≤ ε) {x : ℕ → ℚ} (hx : t.Solves x) :
    p.HoldsWithin ε (p.registry.point x) ↔ ∀ j < t.columns.size, -ε ≤ x j := by
  rw [h.columns_iff x hx fun a => -ε ≤ a]
  constructor
  · rintro ⟨hnonneg,hholds⟩
    refine ⟨fun j hj => ?_,fun c hc _ => (Constraint.holdsWithin_iff_margin.mp (hholds c hc)).1⟩
    have hj' : j < p.registry.members.length := hj
    have := hnonneg _ (List.getElem_mem hj')
    rwa [Registry.point_index ho x hj'] at this
  · rintro ⟨hown,hmargin⟩
    refine ⟨fun v hv => ?_,fun c hc => Constraint.holdsWithin_iff_margin.mpr ?_⟩
    · obtain ⟨j,hj,rfl⟩ := List.getElem_of_mem hv
      rw [Registry.point_index ho x hj]
      exact hown j hj
    · by_cases heq : c.relation = .equal
      · rw [h.equations x hx c hc heq]
        exact ⟨neg_nonpos.mpr hε,fun _ => hε⟩
      · exact ⟨hmargin c hc heq,fun he => absurd he heq⟩

end Tableau

namespace Problem

/-- The solution of a compiled problem names its variables. It is feasible up to `1e-6` exactly if
no right-hand side of the last tableau is below `-1e-6`, and feasible without error unless some
pivot of the solve overshoots. -/
theorem solution_holdsWithin_iff {problem : Problem ℚ} {p : Program ℚ}
    (hc : problem.compile = .ok p) {sol : Solution ℚ} (h : ({} : Solver ℚ).solve p = .ok sol) :
    sol.values.map Prod.fst = p.registry.members.map Variable.label ∧
    (p.HoldsWithin 1e-6 (sol.pointOf p.registry) ↔ ∀ r ∈ sol.tableau.rows, -1e-6 ≤ r.rhs) ∧
    ((∀ t, Tableau.build p = .ok t → ({} : Solver ℚ).NeverOvershoots t) →
      p.Feasible (sol.pointOf p.registry)) := by
  have hp := covered_of_compile hc
  have hs : 0 ≤ ({} : Solver ℚ).tolerance := by decide +kernel
  obtain ⟨t,v,hb,hv,hnonneg,-,hread⟩ := Solver.exists_of_solve_eq_ok hs hp h
  have hsolves := hv.canonical.solves_valueOf
  rw [hread.point,hread.rows]
  refine ⟨hread.labels,?_,fun hno => ?_⟩
  · have hε : (0:ℚ) ≤ 1e-6 := by norm_num
    rw [hv.holdsWithin_iff hp.ordered hε hsolves]
    exact hv.canonical.forall_valueOf_iff (neg_nonpos.mpr hε)
  · exact hv.feasible_of_solves hsolves fun j _ => (hnonneg (hno t hb)).valueOf j

def gentleProblem : Problem ℚ where
  variableCount := 2
  objective := "3X1 + 5X2"
  direction := .maximize
  constraints := [⟨"X1",.atMost,4⟩,⟨"2X2",.atMost,12⟩,⟨"3X1 + 2X2",.atMost,18⟩]

theorem solution_holdsWithin_gentle : ∃ p sol, gentleProblem.compile = .ok p ∧
    ({} : Solver ℚ).solve p = .ok sol ∧ p.HoldsWithin 1e-6 (sol.pointOf p.registry) := by
  have hvalue : (gentleProblem.compile.toOption.bind fun p =>
      (({} : Solver ℚ).solve p).toOption.map fun sol =>
        sol.tableau.rows.map fun r => r.rhs) = some [2,6,2] := by decide +kernel
  obtain ⟨p,hp,hsolve⟩ := Option.bind_eq_some_iff.mp hvalue
  obtain ⟨sol,hsol,hrhs⟩ := Option.map_eq_some_iff.mp hsolve
  have hc := Except.toOption_eq_some.mp hp
  have h := Except.toOption_eq_some.mp hsol
  have hall : ∀ a ∈ sol.tableau.rows.map fun r => r.rhs, (-1e-6:ℚ) ≤ a := by
    rw [hrhs]
    norm_num
  rw [List.forall_mem_map] at hall
  exact ⟨p,sol,hc,h,(solution_holdsWithin_iff hc h).2.1.mpr hall⟩

def steepProblem : Problem ℚ where
  variableCount := 2
  objective := "3X1 + X2"
  direction := .maximize
  constraints := [⟨"20000000000X1 + X2",.atMost,0⟩,⟨"X2",.atMost,1000000000000⟩]

/-- The second pivot takes `X2` to its bound. In the row of `X1` the entry of `X2` is `5e-11`, within
the tolerance, so the ratio test passes over the row that would have stopped it, and `X1` ends at
-50. -/
theorem steep_not_holdsWithin : ∃ p sol, steepProblem.compile = .ok p ∧
    ({} : Solver ℚ).solve p = .ok sol ∧ ¬ p.HoldsWithin 1e-6 (sol.pointOf p.registry) := by
  have hvalue : (steepProblem.compile.toOption.bind fun p =>
      (({} : Solver ℚ).solve p).toOption.map fun sol =>
        (p.registry,sol.pointOf p.registry 1)) = some (.numbered "X" 2,-50) := by decide +kernel
  obtain ⟨p,hp,hsolve⟩ := Option.bind_eq_some_iff.mp hvalue
  obtain ⟨sol,hsol,hpair⟩ := Option.map_eq_some_iff.mp hsolve
  obtain ⟨hregistry,hpoint⟩ := Prod.mk.inj hpair
  refine ⟨p,sol,Except.toOption_eq_some.mp hp,Except.toOption_eq_some.mp hsol,fun hholds => ?_⟩
  have hmem : { name := "X1", index := 1, kind := .decision } ∈ p.registry.members := by
    rw [hregistry]
    decide
  have hle := hholds.nonneg _ hmem
  dsimp only at hle
  rw [hpoint] at hle
  norm_num at hle

end Problem

end LinProg
