import LinProg.Proofs.Infeasibility
import LinProg.Proofs.RowSpan

/-!
Artificial columns that are still basic when phase 1 has brought their sum to zero. Over independent
rows this happens exactly if some other column has a positive cost then. Such a column is zero at
every feasible point, so the feasible points have no interior.
-/
namespace LinProg
open scoped BigOperators

namespace Tableau
variable {t : Tableau ℚ}

/-- The sum of the rows that are solved for artificial columns, in one column. -/
def artificialRows (t : Tableau ℚ) (c : ℕ) : ℚ :=
  ∑ k : Fin t.rows.length,
    if t.isArtificial (t.rows.get k).basic then (t.rows.get k).toRow.entry c else 0

lemma artificialSum_settle (ht : t.Canonical) (x : ℕ → ℚ) :
    t.artificialSum (t.settle x) = t.artificialSum x + ∑ k : Fin t.rows.length,
      if t.isArtificial (t.rows.get k).basic then (t.rows.get k).toRow.residual x else 0 := by
  rw [← residual_artificialStart,← residual_artificialStart,Row.residual,Row.residual,
    dot_settle length_artificialStart ht.basic_lt,← sub_sub,sub_eq_add_neg,
    ← Finset.sum_neg_distrib]
  congr 1
  apply Finset.sum_congr rfl
  intro k _
  have hb : (t.rows.get k).basic < t.columns.size := ht.basic_lt _ (List.get_mem _ _)
  change -((artificialStart t.columns).entry (t.rows.get k).basic *
    (t.rows.get k).toRow.residual x) = _
  rw [entry_artificialStart hb,isArtificial]
  split <;> ring

/-- If the score is the negated sum of the artificial columns, the costs of the other columns come
from the rows that are solved for artificial ones. -/
theorem Canonical.costs_eq (ht : t.Canonical)
    (hscore : ∀ x, t.Solves x → t.score x = -t.artificialSum x) {c : ℕ} (hc : c < t.columns.size)
    (hnot : t.isArtificial c = false) : t.costs.entry c = -t.artificialRows c := by
  have hzero := hscore _ (ht.solves_settle fun _ => 0)
  have hone := hscore _ (ht.solves_settle fun j => if j = c then 1 else 0)
  have hsum : t.artificialSum (fun j => if j = c then 1 else 0) = 0 := by
    apply Finset.sum_eq_zero
    intro j _
    by_cases hj : j = c
    · simp [hj,hnot]
    · simp [hj]
  have hresidual : ∀ k : Fin t.rows.length,
      (t.rows.get k).toRow.residual (fun j => if j = c then 1 else 0) =
        (t.rows.get k).toRow.residual (fun _ => 0) - (t.rows.get k).toRow.entry c := by
    intro k
    have hlen := ht.row_length _ (List.get_mem t.rows k)
    rw [Row.residual,Row.residual,Row.dot_single (hlen.symm ▸ hc),Row.dot_zero]
    ring
  rw [ht.score_settle,artificialSum_settle ht] at hzero hone
  rw [hsum] at hone
  simp only [hresidual] at hone
  have hsplit : (∑ k : Fin t.rows.length, if t.isArtificial (t.rows.get k).basic then
        (t.rows.get k).toRow.residual (fun _ => 0) - (t.rows.get k).toRow.entry c else 0) =
      (∑ k : Fin t.rows.length, if t.isArtificial (t.rows.get k).basic then
        (t.rows.get k).toRow.residual (fun _ => 0) else 0) - t.artificialRows c := by
    rw [artificialRows,← Finset.sum_sub_distrib]
    apply Finset.sum_congr rfl
    intro k _
    split <;> ring
  rw [hsplit] at hone
  simp only [score,Row.residual,Row.dot_single (ht.costs_length.symm ▸ hc),Row.dot_zero,
    artificialSum,ite_self,Finset.sum_const_zero] at hzero hone
  linarith

/-- The rows that are solved for artificial columns do not cancel, because each has a column in
which the others are zero. -/
lemma Canonical.artificialRows_basic (ht : t.Canonical) {i : ℕ} (hi : i < t.rows.length)
    (hart : t.isArtificial t.rows[i].basic = true) : t.artificialRows t.rows[i].basic = 1 := by
  rw [artificialRows,Finset.sum_eq_single (⟨i,hi⟩ : Fin t.rows.length)]
  · simp [hart,ht.unit i i hi hi]
  · intro k _ hk
    have hne : k.val ≠ i := fun he => hk (Fin.ext he)
    simp [ht.unit k i k.isLt hi,hne]
  · simp

lemma artificialRows_mem_rowSpan (n : ℕ) :
    (fun j : Fin n => t.artificialRows j) ∈ t.rowSpan n := by
  have he : (fun j : Fin n => t.artificialRows j) = ∑ k : Fin t.rows.length,
      if t.isArtificial (t.rows.get k).basic then (t.rows.get k).toRow.vector n else 0 := by
    funext j
    rw [artificialRows,Finset.sum_apply]
    apply Finset.sum_congr rfl
    intro k _
    split <;> rfl
  rw [he]
  apply Submodule.sum_mem _
  intro k _
  split
  case isTrue => exact vector_mem_rowSpan n (List.get_mem _ _)
  case isFalse => exact Submodule.zero_mem _

end Tableau

namespace Solver
variable {s : Solver ℚ} {p : Program ℚ} {t : Tableau ℚ} (hs : s.tolerance = 0)
  (h : t.StandardForm p) (h2 : t.phase = .two)
include hs h h2

/-- The optimum of phase 1 over a program that has a solution without artificial columns: their sum
is zero, and every column of that solution that costs something is zero. -/
lemma optimum_firstRun (hstop : (s.firstRun t).stop = .optimal) {x : ℕ → ℚ} (hx : t.Solves x)
    (hart : ∀ j, t.isArtificial j = true → x j = 0) (hx0 : ∀ j < t.columns.size, 0 ≤ x j) :
    (s.firstRun t).last.costs.rhs = 0 ∧
      ∀ c < t.columns.size, (s.firstRun t).last.costs.entry c * x c = 0 := by
  obtain ⟨hc,he⟩ := canonical_firstRun hs.ge h
  have hcosts := costs_nonneg_of_optimal hs hc.toRectangular (s.verdict_of_optimal hstop)
  have hlen : (s.firstRun t).last.costs.entries.length = t.columns.size := by
    rw [hc.costs_length,he.columns]
    rfl
  rw [← hc.costs_length,hlen] at hcosts
  have hterms : ∀ j < t.columns.size, 0 ≤ (s.firstRun t).last.costs.entry j * x j :=
    fun j hj => mul_nonneg (hcosts j hj) (hx0 j hj)
  have hsum := Tableau.artificialSum_of_zero hart
  have hrhs : (s.firstRun t).last.costs.rhs = 0 := neg_eq_zero.mp
    ((isLeast_firstRun hs h h2 hstop).unique (Tableau.isLeast_zero ⟨x,hx,hx0,hsum⟩))
  have hscore := score_firstRun hs.ge h h2 ((he.solves x).mpr hx)
  rw [hsum,Tableau.score,Row.residual,hrhs,zero_sub,neg_inj] at hscore
  refine ⟨hrhs,fun c hlt => ?_⟩
  rw [Row.dot,hlen,Finset.sum_eq_zero_iff_of_nonneg fun j hj => hterms j (Finset.mem_range.mp hj)]
    at hscore
  exact hscore c (Finset.mem_range.mpr hlt)

/-- The costs that phase 1 ends with, outside the artificial columns. -/
lemma costs_firstRun {c : ℕ} (hlt : c < t.columns.size) (hnot : t.isArtificial c = false) :
    (s.firstRun t).last.costs.entry c = -(s.firstRun t).last.artificialRows c := by
  obtain ⟨hc,he⟩ := canonical_firstRun hs.ge h
  have hcols : (s.firstRun t).last.columns = t.columns := he.columns
  apply hc.costs_eq
  · intro x hx
    rw [score_firstRun hs.ge h h2 hx]
    unfold Tableau.artificialSum Tableau.isArtificial
    rw [hcols]
  · rwa [hcols]
  · rwa [Tableau.isArtificial,hcols]

/-- With independent rows an artificial column is left in the basis exactly if another column has a
positive cost. -/
lemma exists_artificial_iff (hind : t.Independent) (hstop : (s.firstRun t).stop = .optimal) :
    (∃ r ∈ (s.firstRun t).last.rows, (s.firstRun t).last.isArtificial r.basic = true) ↔
      ∃ c < t.columns.size, t.isArtificial c = false ∧
        0 < (s.firstRun t).last.costs.entry c := by
  obtain ⟨hc,he⟩ := canonical_firstRun hs.ge h
  have hcols : (s.firstRun t).last.columns = t.columns := he.columns
  have hcosts := costs_nonneg_of_optimal hs hc.toRectangular (s.verdict_of_optimal hstop)
  constructor
  · rintro ⟨r,hr,hart⟩
    obtain ⟨i,hi,rfl⟩ := List.getElem_of_mem hr
    have hlt := hc.basic_lt _ hr
    rw [hcols] at hlt
    by_contra! hnone
    have hspan : (s.firstRun t).last.rowSpan t.columns.size ≤ t.rowSpan t.columns.size :=
      rowSpan_run_le hs.ge _ _ h.canonical.negateCosts
    have hzero := hind.eq_zero (hspan (Tableau.artificialRows_mem_rowSpan _)) fun j hj => by
      have hle := hnone j j.isLt hj
      have hge := hcosts j (by rw [hcols]; exact j.isLt)
      have := costs_firstRun hs h h2 j.isLt hj
      linarith
    have := congrFun hzero ⟨_,hlt⟩
    simp [hc.artificialRows_basic hi hart] at this
  · rintro ⟨c,hlt,hnot,hpos⟩
    rw [costs_firstRun hs h h2 hlt hnot] at hpos
    by_contra! hnone
    have hzero : (s.firstRun t).last.artificialRows c = 0 := by
      refine Finset.sum_eq_zero fun k _ => if_neg ?_
      exact hnone _ (List.get_mem _ _)
    linarith

omit hs h2 in
/-- A column that is zero at every feasible point is a variable, or the margin of an inequality. -/
lemma forced_of_column {c : ℕ} (hc : c < t.columns.size)
    (hnot : t.isArtificial c = false) (hzero : ∀ y, p.Feasible y → Tableau.columnsAt p y c = 0) :
    (∃ v ∈ p.registry.members, ∀ y, p.Feasible y → y v.index = 0) ∨
      ∃ e ∈ p.constraints, e.relation ≠ .equal ∧ ∀ y, p.Feasible y → e.margin y = 0 := by
  rcases lt_or_ge c p.own.size with hlt | hge
  · have hlt' : c < p.own.members.length := hlt
    refine .inl ⟨p.own.members[c],Program.getElem_own_mem hlt',fun y hy => ?_⟩
    have := hzero y hy
    rwa [Tableau.columnsAt_own y hlt,Registry.valuesAt,Registry.at?,
      List.getElem?_eq_getElem hlt'] at this
  · obtain ⟨e,he,k,hk,rfl⟩ := Tableau.exists_placed hge (h.size_columns ▸ hc)
    rw [Bool.eq_false_iff,ne_eq,h.isArtificial_added he hk] at hnot
    obtain ⟨rfl,hne⟩ := (e.1.getElem?_addedKinds_ne hk).mp hnot
    refine .inr ⟨e.1,Tableau.mem_of_mem_placed he,hne,fun y hy => ?_⟩
    have := hzero y hy
    rwa [Tableau.columnsAt_added y he hk,if_neg hnot] at this

omit h h2 in
/-- Over independent rows, a feasible program is rejected for its artificial variables exactly if
phase 1 ends with a positive cost in another column. Then some variable is zero at every feasible
point, or some inequality holds with equality at all of them. -/
theorem artificialInBasis_iff (hf : 0 ≤ s.feasibilityTolerance) (hp : p.Covered)
    (hfeasible : ∃ y, p.Feasible y) (hb : Tableau.build p = .ok t) (hind : t.Independent) :
    ((∃ name, s.solve p = .error (.artificialInBasis name)) ↔
      t.phase = .two ∧ (s.firstRun t).stop = .optimal ∧
        ∃ c < t.columns.size, t.isArtificial c = false ∧
          0 < (s.firstRun t).last.costs.entry c) ∧
    ((∃ name, s.solve p = .error (.artificialInBasis name)) →
      (∃ v ∈ p.registry.members, ∀ y, p.Feasible y → y v.index = 0) ∨
        ∃ e ∈ p.constraints, e.relation ≠ .equal ∧ ∀ y, p.Feasible y → e.margin y = 0) := by
  have h := Tableau.standardForm_of_build hp.ordered hb
  have hiff : (∃ name, s.solve p = .error (.artificialInBasis name)) ↔
      t.phase = .two ∧ (s.firstRun t).stop = .optimal ∧
        ∃ c < t.columns.size, t.isArtificial c = false ∧
          0 < (s.firstRun t).last.costs.entry c := by
    rw [solve_eq_artificialInBasis hb]
    apply and_congr_right
    intro h2
    rw [Passed,and_assoc]
    apply and_congr_right
    intro hstop
    rw [exists_artificial_iff hs h h2 hind hstop]
    refine and_iff_right ?_
    obtain ⟨y,hy⟩ := hfeasible
    obtain ⟨hart,hx,hx0⟩ := h.columnsAt_feasible hp hy
    rwa [(optimum_firstRun hs h h2 hstop hx hart hx0).1,abs_zero]
  refine ⟨hiff,fun hstuck => ?_⟩
  obtain ⟨h2,hstop,c,hc,hnot,hpos⟩ := hiff.mp hstuck
  refine forced_of_column h hc hnot fun y hy => ?_
  obtain ⟨hart,hx,hx0⟩ := h.columnsAt_feasible hp hy
  have := (optimum_firstRun hs h h2 hstop hx hart hx0).2 c hc
  exact (mul_eq_zero.mp this).resolve_left hpos.ne'

omit hs h h2

/-- Maximizes `X1` where `-X1 = 0`. -/
def pinnedProgram : Program ℚ where
  registry := .numbered "X" 1
  objective := ⟨.ofList [(1,1)],.maximize⟩
  constraints := [⟨.ofList [(1,-1)],.equal,0⟩]

lemma covered_pinnedProgram : pinnedProgram.Covered :=
  ⟨Registry.ordered_numbered "X" 1,by decide,by decide⟩

lemma feasible_pinnedProgram : pinnedProgram.Feasible fun _ => 0 where
  zero _ _ := rfl
  nonneg _ _ := le_rfl
  holds c hc := by
    obtain rfl := List.mem_singleton.mp hc
    change Equation.evaluate _ _ = _
    decide +kernel

lemma exists_build_pinnedProgram : ∃ t, Tableau.build pinnedProgram = .ok t ∧ t.Independent := by
  have hbuild : ((Tableau.build pinnedProgram).toOption.map fun t =>
      (t.rows,t.columns.size,t.isArtificial 0)) = some ([⟨⟨[-1,1],0⟩,1⟩],2,false) := by
    decide +kernel
  obtain ⟨t,ht,hfacts⟩ := Option.map_eq_some_iff.mp hbuild
  simp only [Prod.mk.injEq] at hfacts
  obtain ⟨hrows,hsize,hart⟩ := hfacts
  refine ⟨t,Except.toOption_eq_some.mp ht,?_⟩
  have hone : t.rows.length = 1 := by
    rw [hrows]
    rfl
  have hentry : ∀ r ∈ t.rows, r.toRow.entry 0 = -1 := by
    rw [hrows]
    decide
  have : Subsingleton (Fin t.rows.length) := by
    rw [hone]
    infer_instance
  apply (linearIndependent_subsingleton_index_iff _).mpr
  intro i hi
  have hzero : (t.rows.get i).toRow.entry 0 = 0 := congrFun hi ⟨⟨0,by omega⟩,hart⟩
  rw [hentry _ (List.get_mem _ _)] at hzero
  exact absurd hzero (by decide)

lemma solve_pinnedProgram :
    (exact 100).solve pinnedProgram = .error (.artificialInBasis "A1") :=
  Except.failure?_eq_some.mp (by decide +kernel)

/-- The row of `-X1 = 0` has no admissible pivot, so its artificial variable stays. -/
theorem artificialInBasis_pinned : pinnedProgram.Covered ∧ (∃ y, pinnedProgram.Feasible y) ∧
    (∃ t, Tableau.build pinnedProgram = .ok t ∧ t.Independent) ∧
    (exact 100).solve pinnedProgram = .error (.artificialInBasis "A1") :=
  ⟨covered_pinnedProgram,⟨_,feasible_pinnedProgram⟩,exists_build_pinnedProgram,solve_pinnedProgram⟩

theorem artificialInBasis_iff_pinned : ∃ t, Tableau.build pinnedProgram = .ok t ∧
    ∃ c < t.columns.size, t.isArtificial c = false ∧
      0 < ((exact 100).firstRun t).last.costs.entry c := by
  obtain ⟨t,hb,hind⟩ := exists_build_pinnedProgram
  have htolerance : 0 ≤ (exact 100).feasibilityTolerance := le_rfl
  have hiff := (artificialInBasis_iff rfl htolerance covered_pinnedProgram
    ⟨_,feasible_pinnedProgram⟩ hb hind).1
  exact ⟨t,hb,(hiff.mp ⟨_,solve_pinnedProgram⟩).2.2⟩

end Solver

end LinProg
