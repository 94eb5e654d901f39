import LinProg.Proofs.Building
import LinProg.Proofs.Unboundedness

/-!
Programs without feasible points. The optimum of phase 1 is the least sum of the artificial columns,
which is zero exactly if the program has a feasible point.
-/
namespace LinProg
open scoped BigOperators

namespace Tableau

/-- The sums of the artificial columns over all nonnegative solutions. -/
def artificialSums (t : Tableau ℚ) : Set ℚ :=
  {a | ∃ x, t.Solves x ∧ (∀ j < t.columns.size, 0 ≤ x j) ∧ t.artificialSum x = a}

lemma artificialSum_of_zero {t : Tableau ℚ} {x : ℕ → ℚ}
    (hx : ∀ j, t.isArtificial j = true → x j = 0) : t.artificialSum x = 0 := by
  refine Finset.sum_eq_zero fun j _ => ?_
  split
  case isTrue hj => exact hx j hj
  case isFalse => rfl

/-- No sum is below zero, so zero is the least one if it is one of them. -/
lemma isLeast_zero {t : Tableau ℚ} (h : 0 ∈ t.artificialSums) : IsLeast t.artificialSums 0 := by
  refine ⟨h,?_⟩
  rintro a ⟨x,-,hx0,rfl⟩
  exact artificialSum_nonneg hx0

/-- A program has a feasible point exactly if the artificial columns can all be zero. -/
theorem StandardForm.zero_mem_artificialSums {t : Tableau ℚ} {p : Program ℚ} (h : StandardForm p t)
    (hp : p.Covered) : 0 ∈ t.artificialSums ↔ ∃ y, p.Feasible y := by
  constructor
  · rintro ⟨x,hx,hx0,hsum⟩
    refine ⟨_,h.feasible_of_solves hp (fun j hj => ?_) hx hx0⟩
    rw [artificialSum,Finset.sum_eq_zero_iff_of_nonneg (artificialTerm_nonneg hx0)] at hsum
    have := hsum j (Finset.mem_range.mpr (isArtificial_lt hj))
    rwa [if_pos hj] at this
  · rintro ⟨y,hy⟩
    obtain ⟨hart,hx,hx0⟩ := h.columnsAt_feasible hp hy
    exact ⟨_,hx,hx0,artificialSum_of_zero hart⟩

end Tableau

namespace Solver
variable {s : Solver ℚ} {p : Program ℚ} {t u : Tableau ℚ}

section Exact
variable (hs : s.tolerance = 0) (h : t.StandardForm p)
include hs h

/-- Where phase 1 stops, its basic solution has the least sum of the artificial columns. -/
theorem isLeast_firstRun (h2 : t.phase = .two) (hstop : (s.firstRun t).stop = .optimal) :
    IsLeast t.artificialSums (-(s.firstRun t).last.costs.rhs) := by
  obtain ⟨hc,he⟩ := canonical_firstRun hs.ge h
  have hn := nonneg_firstRun hs.ge h h2 (neverOvershoots_of_tolerance_zero hs)
  constructor
  · have hsolves := hc.solves_valueOf
    refine ⟨_,(he.solves _).mp hsolves,fun j _ => hn.valueOf j,?_⟩
    rw [← hc.score_valueOf,score_firstRun hs.ge h h2 hsolves,neg_neg]
  · rintro a ⟨x,hx,hx0,rfl⟩
    have hcosts := costs_nonneg_of_optimal hs hc.toRectangular (s.verdict_of_optimal hstop)
    have hcolumns : (s.firstRun t).last.columns = t.columns := he.columns
    have hle := Tableau.score_le hc.toRectangular hcosts (x := x) (by rwa [hcolumns])
    rw [score_firstRun hs.ge h h2 ((he.solves x).mpr hx)] at hle
    linarith

variable (hp : p.Covered)
include hp

/-- Phase 2 starts only if there is a feasible point. -/
lemma exists_feasible_of_ready {spent : ℕ} (hr : s.ready t = .ok (spent,u)) :
    ∃ y, p.Feasible y := by
  have hu := represents_ready hs.ge h hr hp
  have hn := nonneg_ready hs.ge h hr (neverOvershoots_of_tolerance_zero hs)
  exact ⟨_,hu.feasible_of_solves hu.canonical.solves_valueOf fun j _ => hn.valueOf j⟩

/-- Without a tolerance for the sum of the artificial columns, phase 1 passes only if there is a
feasible point. -/
lemma exists_feasible_of_passed (hf : s.feasibilityTolerance = 0) (h2 : t.phase = .two)
    (hpassed : s.Passed t) : ∃ y, p.Feasible y := by
  obtain ⟨hmem,-⟩ := isLeast_firstRun hs h h2 hpassed.1
  have hzero := hpassed.2
  rw [hf,abs_nonpos_iff] at hzero
  rw [hzero,neg_zero] at hmem
  exact (h.zero_mem_artificialSums hp).mp hmem

/-- Over a program without feasible points phase 1 finds that out, or runs out of pivots. -/
theorem ready_of_infeasible (hf : s.feasibilityTolerance = 0) (hnone : ¬ ∃ y, p.Feasible y) :
    (∃ residual, s.ready t = .error (.infeasible residual)) ∨
      s.ready t = .error (.iterationLimit s.maxIterations) := by
  cases hphase : t.phase with
  | single =>
    exact absurd (exists_feasible_of_ready hs h hp (ready_of_single s hphase)) hnone
  | two =>
    have hready := ready_of_two s hphase
    have hends := s.ends_phaseOne t
    generalize s.phaseOne t = r at hready hends
    cases hends with
    | unbounded c hc => exact absurd hc (firstRun_not_unbounded hs h hphase c)
    | exhausted => exact .inr hready
    | infeasible residual => exact .inl ⟨residual,hready⟩
    | stuck hpassed => exact absurd (exists_feasible_of_passed hs h hp hf hphase hpassed) hnone
    | done hpassed => exact absurd (exists_feasible_of_passed hs h hp hf hphase hpassed) hnone

end Exact

lemma phaseTwoResult_ne_infeasible (s : Solver ℚ) (spent : ℕ) (run : Run ℚ) (residual : ℚ) :
    s.phaseTwoResult spent run ≠ .error (.infeasible residual) := by
  unfold phaseTwoResult
  split <;> simp

/-- A program that is called infeasible has no feasible point, and the residual is the least sum of
the artificial columns over the nonnegative solutions of the first tableau. If that sum is compared
with zero exactly, every program without feasible points that leaves the names and the indices of
the added columns free is called infeasible, unless the pivots run out. -/
theorem infeasible_exact (hs : s.tolerance = 0) (hp : p.Covered) :
    (0 ≤ s.feasibilityTolerance → ∀ residual, s.solve p = .error (.infeasible residual) →
      (¬ ∃ y, p.Feasible y) ∧
        ∃ t, Tableau.build p = .ok t ∧ IsLeast t.artificialSums residual) ∧
    (s.feasibilityTolerance = 0 → p.WellFormed → (¬ ∃ y, p.Feasible y) →
      (∃ t, Tableau.build p = .ok t ∧ ∀ v ∈ t.columns.members, v.index < wordLimit) ∧
      ((∃ residual, s.solve p = .error (.infeasible residual)) ∨
        s.solve p = .error (.iterationLimit s.maxIterations))) := by
  constructor
  · intro hf residual hsolve
    rcases solve_eq_error hsolve with ⟨m,hm⟩ | ⟨t,hb,hr | ⟨spent,u,-,hu⟩⟩
    · contradiction
    · have h := Tableau.standardForm_of_build hp.ordered hb
      obtain ⟨h2,hstop,hresidual,hlt⟩ := ready_eq_infeasible hr
      have hleast := isLeast_firstRun hs h h2 hstop
      rw [← hresidual] at hleast
      refine ⟨fun hfeasible => ?_,t,hb,hleast⟩
      have hzero := Tableau.isLeast_zero ((h.zero_mem_artificialSums hp).mpr hfeasible)
      rw [hleast.unique hzero,abs_zero] at hlt
      exact absurd hf (not_le.mpr hlt)
    · exact absurd hu (s.phaseTwoResult_ne_infeasible spent _ residual)
  · intro hf hwell hnone
    obtain ⟨t,hb,hm⟩ := Tableau.exists_build hwell
    refine ⟨⟨t,hb,hm ▸ hwell.index_lt⟩,?_⟩
    have h := Tableau.standardForm_of_build hp.ordered hb
    rcases ready_of_infeasible hs h hp hf hnone with ⟨residual,hr⟩ | hr
    · exact .inl ⟨residual,solve_of_ready_eq_error hb hr⟩
    · exact .inr (solve_of_ready_eq_error hb hr)

/-- Maximizes `X1 + X2` where `-X1 - X2 <= -3` and `X1 + X2 = 1`. -/
def crossedProgram : Program ℚ where
  registry := .numbered "X" 2
  objective := ⟨.ofList [(1,1),(2,1)],.maximize⟩
  constraints := [⟨.ofList [(1,-1),(2,-1)],.atMost,-3⟩,⟨.ofList [(1,1),(2,1)],.equal,1⟩]

lemma wellFormed_crossedProgram : crossedProgram.WellFormed where
  ordered := Registry.ordered_numbered "X" 2
  decisions := by decide
  objective := by decide
  positive := by decide
  names := by decide
  indices := by decide
  coefficients := by decide
  slack_free := by decide
  artificial_free := by decide

theorem infeasible_exact_crossed : (exact 100).solve crossedProgram = .error (.infeasible 2) ∧
    (¬ ∃ y, crossedProgram.Feasible y) ∧
    (∃ t, Tableau.build crossedProgram = .ok t ∧ IsLeast t.artificialSums 2) ∧
    ∀ n, (∃ residual, (exact n).solve crossedProgram = .error (.infeasible residual)) ∨
      (exact n).solve crossedProgram = .error (.iterationLimit n) := by
  have hwell := wellFormed_crossedProgram
  have hsolve : (exact 100).solve crossedProgram = .error (.infeasible 2) :=
    Except.failure?_eq_some.mp (by decide +kernel)
  have htolerance : 0 ≤ (exact 100).feasibilityTolerance := le_rfl
  obtain ⟨hnone,hleast⟩ := (infeasible_exact rfl hwell.toCovered).1 htolerance 2 hsolve
  refine ⟨hsolve,hnone,hleast,fun n => ?_⟩
  obtain ⟨-,hanswers⟩ := (infeasible_exact (s := exact n) rfl hwell.toCovered).2 rfl hwell hnone
  exact hanswers

/-- Maximizes `S1` where `S1 <= -1`. -/
def takenProgram : Program ℚ where
  registry := .numbered "S" 1
  objective := ⟨.ofList [(1,1)],.maximize⟩
  constraints := [⟨.ofList [(1,1)],.atMost,-1⟩]

lemma complete_takenProgram : takenProgram.Complete where
  ordered := Registry.ordered_numbered "S" 1
  decisions := by decide
  objective := by decide
  positive := by decide
  names := by decide
  indices := by decide
  coefficients := by decide

lemma not_feasible_takenProgram : ¬ ∃ y, takenProgram.Feasible y := by
  rintro ⟨y,hy⟩
  have hnonneg : 0 ≤ y 1 := hy.nonneg ⟨"S1",1,.decision,none⟩ (by decide)
  have hholds : (Equation.ofList [(1,1)]).evaluate y ≤ -1 :=
    hy.holds ⟨.ofList [(1,1)],.atMost,-1⟩ (List.mem_singleton.mpr rfl)
  have hvalue : (Equation.ofList [(1,1)]).evaluate y = y 1 := by
    rw [Equation.evaluate_eq_sum]
    change (([(1,1)] : List (ℕ × ℚ)).map fun entry => entry.2 * y entry.1).sum = y 1
    simp
  linarith

/-- Nothing satisfies `S1 <= -1`, but the solve does not say so: the surplus column of the
constraint would have the name of the variable. -/
theorem taken_not_infeasible : takenProgram.Complete ∧ (¬ ∃ y, takenProgram.Feasible y) ∧ ∀ n,
    (exact n).solve takenProgram = .error (.misuse (.nameTaken "S1")) ∧
    ¬ ((∃ residual, (exact n).solve takenProgram = .error (.infeasible residual)) ∨
      (exact n).solve takenProgram = .error (.iterationLimit n)) := by
  have hbuild : Tableau.build takenProgram = .error (.nameTaken "S1") :=
    Except.failure?_eq_some.mp (by decide)
  refine ⟨complete_takenProgram,not_feasible_takenProgram,fun n => ?_⟩
  have hsolve : (exact n).solve takenProgram = .error (.misuse (.nameTaken "S1")) := by
    rw [solve,hbuild]
  refine ⟨hsolve,?_⟩
  rw [hsolve]
  simp

end Solver

end LinProg
