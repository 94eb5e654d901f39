import LinProg.Proofs.Optimality

/-!
With tolerance zero a column that no row limits is a ray: its value can grow without end while all
others stay nonnegative. Phase 1 has no such column, since its score is never positive.
-/
namespace LinProg
open scoped BigOperators

namespace Tableau
variable {t : Tableau ℚ}

/-- The value `θ` for a column outside the basis, settled. -/
lemma Canonical.settle_ray_nonneg (ht : t.Canonical) (hn : t.Nonneg) {c : ℕ}
    (hc : c < t.columns.size) (hle : ∀ r ∈ t.rows, r.toRow.entry c ≤ 0) {θ : ℚ} (hθ : 0 ≤ θ)
    (j : ℕ) : 0 ≤ t.settle (fun i => if i = c then θ else 0) j := by
  have hstart : ∀ i : ℕ, 0 ≤ if i = c then θ else 0 := by
    intro i
    split
    · exact hθ
    · exact le_rfl
  by_cases hj : ∃ r ∈ t.rows, r.basic = j
  · obtain ⟨r,hr,rfl⟩ := hj
    obtain ⟨k,hk,rfl⟩ := List.getElem_of_mem hr
    rw [ht.settle_basic _ hk]
    refine add_nonneg (hstart _) ?_
    rw [Row.residual,Row.dot_single ((ht.row_length _ hr).symm ▸ hc),sub_nonneg]
    exact (mul_nonpos_of_nonpos_of_nonneg (hle _ hr) hθ).trans (hn _ hr)
  · push Not at hj
    rw [settle_of_not_basic _ hj]
    exact hstart j

/-- A column that improves the score and that no row limits makes the score as great as one
likes. -/
theorem Canonical.exists_ray (ht : t.Canonical) (hn : t.Nonneg) {c : ℕ} (hc : c < t.columns.size)
    (hcost : t.costs.entry c < 0) (hle : ∀ r ∈ t.rows, r.toRow.entry c ≤ 0) (bound : ℚ) :
    ∃ x, t.Solves x ∧ (∀ j, 0 ≤ x j) ∧ bound < t.score x := by
  have hpos : 0 < -t.costs.entry c := neg_pos.mpr hcost
  obtain ⟨θ,hθ,hlt⟩ : ∃ θ : ℚ, 0 ≤ θ ∧ bound-t.costs.rhs < -t.costs.entry c * θ := by
    refine ⟨(|bound-t.costs.rhs|+1)/(-t.costs.entry c),by positivity,?_⟩
    rw [mul_div_cancel₀ _ hpos.ne']
    exact (le_abs_self _).trans_lt (lt_add_one _)
  refine ⟨_,ht.solves_settle _,ht.settle_ray_nonneg hn hc hle hθ,?_⟩
  rw [ht.score_settle,score,Row.residual,Row.dot_single (ht.costs_length.symm ▸ hc)]
  linarith

lemma artificialTerm_nonneg {x : ℕ → ℚ} (hx : ∀ j < t.columns.size, 0 ≤ x j) :
    ∀ j ∈ Finset.range t.columns.size, 0 ≤ if t.isArtificial j then x j else 0 := by
  intro j hj
  split
  case isTrue => exact hx j (Finset.mem_range.mp hj)
  case isFalse => exact le_rfl

lemma artificialSum_nonneg {x : ℕ → ℚ} (hx : ∀ j < t.columns.size, 0 ≤ x j) :
    0 ≤ t.artificialSum x := Finset.sum_nonneg (artificialTerm_nonneg hx)

end Tableau

namespace Solver
variable {s : Solver ℚ} {p : Program ℚ} {t : Tableau ℚ}

/-- With tolerance zero the verdict that a tableau is unbounded shows a ray. -/
lemma exists_ray_of_unbounded (hs : s.tolerance = 0) (ht : t.Canonical) (hn : t.Nonneg) {c : ℕ}
    (h : s.verdict t = .unbounded c) (bound : ℚ) :
    ∃ x, t.Solves x ∧ (∀ j, 0 ≤ x j) ∧ bound < t.score x := by
  obtain ⟨hc,hcost,hnone⟩ := s.column_of_unbounded h
  rw [hs,neg_zero] at hcost
  refine ht.exists_ray hn (ht.costs_length ▸ hc) hcost (fun r hr => ?_) bound
  by_contra! hpos
  have := hnone r hr
  rw [ratio?_of_nonneg hs.ge (hn r hr),if_pos (hs ▸ hpos)] at this
  contradiction

/-- On the solutions of the first tableau the score of phase 1 is the negated sum of the artificial
columns. -/
lemma score_firstRun (hs : 0 ≤ s.tolerance) (h : t.StandardForm p) (h2 : t.phase = .two) {x : ℕ → ℚ}
    (hx : (s.firstRun t).last.Solves x) : (s.firstRun t).last.score x = -t.artificialSum x := by
  obtain ⟨-,he⟩ := canonical_firstRun hs h
  have ht : t.Solves x := (he.solves x).mp hx
  rw [he.score x ht,Tableau.score_negateCosts,h.score_of_two h2 ht]

/-- So it is not positive where the columns are nonnegative. -/
lemma score_firstRun_nonpos (hs : 0 ≤ s.tolerance) (h : t.StandardForm p) (h2 : t.phase = .two)
    {x : ℕ → ℚ} (hx : (s.firstRun t).last.Solves x) (hx0 : ∀ j, 0 ≤ x j) :
    (s.firstRun t).last.score x ≤ 0 := by
  rw [score_firstRun hs h h2 hx,neg_nonpos]
  exact t.artificialSum_nonneg fun j _ => hx0 j

theorem firstRun_not_unbounded (hs : s.tolerance = 0) (h : t.StandardForm p)
    (h2 : t.phase = .two) (c : ℕ) : (s.firstRun t).stop ≠ .unbounded c := by
  intro hstop
  obtain ⟨hc,-⟩ := canonical_firstRun hs.ge h
  have hn := nonneg_firstRun hs.ge h h2 (neverOvershoots_of_tolerance_zero hs)
  obtain ⟨x,hx,hx0,hpos⟩ :=
    exists_ray_of_unbounded hs hc hn (s.verdict_of_unbounded hstop) 0
  exact hpos.not_ge (score_firstRun_nonpos hs.ge h h2 hx hx0)

lemma phaseTwoResult_unbounded {spent : ℕ} {run : Run ℚ} {stage : Stage}
    (h : s.phaseTwoResult spent run = .error (.unbounded stage)) :
    stage = .two ∧ ∃ c, run.stop = .unbounded c := by
  unfold phaseTwoResult at h
  split at h
  case h_1 c hstop => exact ⟨by cases h; rfl,c,hstop⟩
  case h_2 => cases h
  case h_3 => cases h

/-- A ray of a tableau that represents the program leads past every value of the objective. -/
lemma exists_better_of_ray (hv : t.Represents p)
    (hray : ∀ bound, ∃ x, t.Solves x ∧ (∀ j, 0 ≤ x j) ∧ bound < t.score x) (bound : ℚ) :
    ∃ y, p.Feasible y ∧ p.objective.direction.Better (p.valueAt y) bound := by
  obtain ⟨x,hx,hx0,hlt⟩ := hray (if p.objective.isMaximize then bound else -bound)
  refine ⟨_,hv.feasible_of_solves hx fun j _ => hx0 j,?_⟩
  rw [hv.score x hx,p.evaluate_maximized] at hlt
  unfold Direction.Better
  unfold Objective.isMaximize at hlt
  cases hd : p.objective.direction with
  | maximize => simpa [hd] using hlt
  | minimize => simpa [hd] using hlt

lemma exists_better_of_unbounded (hs : s.tolerance = 0) (hv : t.Represents p) (hn : t.Nonneg)
    {c : ℕ} (h : s.verdict t = .unbounded c) (bound : ℚ) :
    ∃ y, p.Feasible y ∧ p.objective.direction.Better (p.valueAt y) bound :=
  exists_better_of_ray hv (exists_ray_of_unbounded hs hv.canonical hn h) bound

/-- A solve is called unbounded in phase 2 only, and then the program has feasible points of every
value. -/
theorem unbounded_sound (hs : s.tolerance = 0) (hp : p.Covered) :
    s.solve p ≠ .error (.unbounded .one) ∧
    (s.solve p = .error (.unbounded .two) → (∃ y, p.Feasible y) ∧
      ∀ bound, ∃ y, p.Feasible y ∧ p.objective.direction.Better (p.valueAt y) bound) := by
  constructor
  · intro h
    rcases solve_eq_error h with ⟨m,hm⟩ | ⟨t,hb,hr | ⟨spent,u,-,hu⟩⟩
    · contradiction
    · obtain ⟨-,h2,c,hc⟩ := ready_eq_unbounded hr
      exact firstRun_not_unbounded hs (Tableau.standardForm_of_build hp.ordered hb) h2 c hc
    · cases (phaseTwoResult_unbounded hu).1
  · intro h
    rcases solve_eq_error h with ⟨m,hm⟩ | ⟨t,hb,hr | ⟨spent,u,hr,hu⟩⟩
    · contradiction
    · cases (ready_eq_unbounded hr).1
    · obtain ⟨-,c,hstop⟩ := phaseTwoResult_unbounded hu
      have hform := Tableau.standardForm_of_build hp.ordered hb
      have hv := represents_phaseTwo hs.ge hform hr hp
      have hn := nonneg_phaseTwo hs.ge hform hr hp (neverOvershoots_of_tolerance_zero hs)
      refine ⟨⟨_,hv.feasible_of_solves hv.canonical.solves_valueOf fun j _ => hn.valueOf j⟩,?_⟩
      exact exists_better_of_unbounded hs hv hn (s.verdict_of_unbounded hstop)

/-- Maximizes `X1` where `X1 + X2 >= 2` and `X1 - X2 <= 1`. -/
def openProgram : Program ℚ where
  registry := .numbered "X" 2
  objective := ⟨.ofList [(1,1),(2,0)],.maximize⟩
  constraints := [⟨.ofList [(1,1),(2,1)],.atLeast,2⟩,⟨.ofList [(1,1),(2,-1)],.atMost,1⟩]

theorem unbounded_sound_open : (exact 100).solve openProgram = .error (.unbounded .two) ∧
    ∀ bound, ∃ y, openProgram.Feasible y ∧ bound < openProgram.valueAt y := by
  have hcovered : openProgram.Covered :=
    ⟨Registry.ordered_numbered "X" 2,by decide,by decide⟩
  have h : (exact 100).solve openProgram = .error (.unbounded .two) :=
    Except.failure?_eq_some.mp (by decide +kernel)
  exact ⟨h,((unbounded_sound rfl hcovered).2 h).2⟩

end Solver

end LinProg
