import LinProg.Proofs.History
import LinProg.Proofs.Optimality

/-!
The form of the tableaux of a solve. Every operation leaves the tableau solved for its basic
columns, with costs of zero in them, and without tolerance it leaves every right-hand side
nonnegative.
-/
namespace LinProg

namespace Solver
variable {s : Solver ℚ} {p : Program ℚ} {t : Tableau ℚ} {a b : Snapshot ℚ}

lemma Step.canonical (hs : 0 ≤ s.tolerance) (h : s.Step a b) (ha : a.tableau.Canonical) :
    b.tableau.Canonical := by
  cases h with
  | negate => exact ha.negateCosts
  | pivot _ _ _ hv =>
    exact (canonical_of_verdict hs ha hv).1
  | restore => exact ha.enterObjective
  | remove _ _ hr =>
    obtain ⟨hb,rfl⟩ := Tableau.removeArtificials_eq_ok.mp hr
    exact ha.kept hb

/-- Only a pivot changes right-hand sides of rows, and the ratio test keeps them nonnegative. -/
lemma Step.nonneg (hs : s.tolerance = 0) (h : s.Step a b) (ha : a.tableau.Canonical)
    (hn : a.tableau.Nonneg) : b.tableau.Nonneg := by
  cases h with
  | negate => exact hn
  | pivot _ u q hv =>
    obtain ⟨row,hp⟩ := chosen_of_verdict hs.ge ha.toRectangular hv
    exact hp.nonneg_pivot hs.ge hn (not_overshoots hs u q)
  | restore => exact hn
  | remove _ _ hr =>
    obtain ⟨-,rfl⟩ := Tableau.removeArtificials_eq_ok.mp hr
    exact Tableau.Nonneg.kept hn

lemma tableau_first (t : Tableau ℚ) : (Snapshot.first t).tableau = t := by
  unfold Snapshot.first
  split <;> rfl

section History
variable (h : t.StandardForm p)
include h

theorem history_canonical (hs : 0 ≤ s.tolerance) : ∀ e ∈ s.history t, e.tableau.Canonical := by
  apply history_induction
  · rw [tableau_first]
    exact h.canonical
  · exact fun _ _ hstep ha => hstep.canonical hs ha

theorem history_nonneg (hs : s.tolerance = 0) : ∀ e ∈ s.history t, e.tableau.Nonneg := by
  have hboth : ∀ e ∈ s.history t, e.tableau.Canonical ∧ e.tableau.Nonneg := by
    apply history_induction
    · rw [tableau_first]
      exact ⟨h.canonical,h.nonneg⟩
    · exact fun _ _ hstep ha => ⟨hstep.canonical hs.ge ha.1,hstep.nonneg hs ha.1 ha.2⟩
  exact fun e he => (hboth e he).2

end History

end Solver

namespace Tableau

lemma Rectangular.length_of_mem_matrix {t : Tableau ℚ} (ht : t.Rectangular) :
    ∀ row ∈ t.matrix, row.length = t.columns.size+1 := by
  intro row hrow
  rcases List.mem_cons.mp hrow with rfl | hrow
  · rw [Row.length_toList,ht.costs_length]
  · obtain ⟨r,hr,rfl⟩ := List.mem_map.mp hrow
    rw [Row.length_toList,ht.row_length r hr]

end Tableau

namespace Solver
variable {s : Solver ℚ} {p : Program ℚ} {t : Tableau ℚ}

/-- In every tableau of a solve each row has an entry for each column and a right-hand side; the
basic columns are distinct and form an identity matrix, with costs of zero; and without tolerance no
right-hand side of a constraint row is negative. -/
theorem history_invariant (hs : 0 ≤ s.tolerance) (hp : p.Covered) (hb : Tableau.build p = .ok t) :
    ∀ e ∈ s.history t,
      (∀ row ∈ e.tableau.matrix, row.length = e.tableau.columns.size+1) ∧
      e.tableau.basis.Nodup ∧ (∀ c ∈ e.tableau.basis, c < e.tableau.rhsColumn) ∧
      (∀ (i k : ℕ) (hi : i < e.tableau.rows.length) (hk : k < e.tableau.rows.length),
        e.tableau.rows[i].toRow.entry e.tableau.rows[k].basic = if i = k then 1 else 0) ∧
      (∀ c ∈ e.tableau.basis, e.tableau.costs.entry c = 0) ∧
      (s.tolerance = 0 → ∀ r ∈ e.tableau.rows, 0 ≤ r.rhs) := by
  intro e he
  have hform := Tableau.standardForm_of_build hp.ordered hb
  have hc := history_canonical hform hs e he
  refine ⟨hc.length_of_mem_matrix,hc.basis_nodup,?_,hc.unit,?_,fun h0 => ?_⟩
  · rw [Tableau.basis,List.forall_mem_map,Tableau.rhsColumn,hc.costs_length]
    exact hc.basic_lt
  · rw [Tableau.basis,List.forall_mem_map]
    exact hc.priced
  · exact history_nonneg hform h0 e he

/-- Minimizes `-X1 - 2X2` where `X1 + X2 >= 2`, `X1 - X2 <= 1` and `X1 + X2 <= 5`. -/
def stagedProgram : Program ℚ where
  registry := .numbered "X" 2
  objective := ⟨.ofList [(1,-1),(2,-2)],.minimize⟩
  constraints := [⟨.ofList [(1,1),(2,1)],.atLeast,2⟩,⟨.ofList [(1,1),(2,-1)],.atMost,1⟩,
    ⟨.ofList [(1,1),(2,1)],.atMost,5⟩]

lemma covered_stagedProgram : stagedProgram.Covered :=
  ⟨Registry.ordered_numbered "X" 2,by decide,by decide⟩

/-- Its solve has both phases, with pivots in each. -/
lemma exists_build_stagedProgram : ∃ t, Tableau.build stagedProgram = .ok t ∧
    ((exact 100).history t).map Snapshot.station = [.built,.phaseOne,.phaseOne,.phaseOne,.restored,
      .phaseTwo,.phaseTwo,.phaseTwo] := by
  have hstations : ((Tableau.build stagedProgram).toOption.map fun t =>
      ((exact 100).history t).map Snapshot.station) = some [.built,.phaseOne,.phaseOne,.phaseOne,
        .restored,.phaseTwo,.phaseTwo,.phaseTwo] := by decide +kernel
  obtain ⟨t,ht,hlist⟩ := Option.map_eq_some_iff.mp hstations
  exact ⟨t,Except.toOption_eq_some.mp ht,hlist⟩

theorem history_invariant_staged : ∃ t, Tableau.build stagedProgram = .ok t ∧
    ((exact 100).history t).length = 8 ∧
    ∀ e ∈ (exact 100).history t, e.tableau.basis.Nodup ∧ ∀ r ∈ e.tableau.rows, 0 ≤ r.rhs := by
  obtain ⟨t,hb,hstations⟩ := exists_build_stagedProgram
  refine ⟨t,hb,?_,fun e he => ?_⟩
  · rw [← List.length_map (f := Snapshot.station),hstations]
    rfl
  · obtain ⟨-,hnodup,-,-,-,hnonneg⟩ := history_invariant le_rfl covered_stagedProgram hb e he
    exact ⟨hnodup,hnonneg rfl⟩

end Solver

end LinProg
