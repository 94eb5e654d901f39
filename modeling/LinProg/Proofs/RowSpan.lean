import Mathlib.LinearAlgebra.LinearIndependent.Lemmas
import LinProg.Proofs.Runs

/-!
The span of the rows of a tableau. A pivot replaces rows by combinations of rows, so a run never
leaves the span of the rows it starts from.
-/
namespace LinProg
open scoped BigOperators

def Row.vector (n : ℕ) (r : Row ℚ) (j : Fin n) : ℚ := r.entry j

namespace Tableau

def rowSpan (n : ℕ) (t : Tableau ℚ) : Submodule ℚ (Fin n → ℚ) :=
  Submodule.span ℚ (Set.range fun i : Fin t.rows.length => (t.rows.get i).toRow.vector n)

lemma vector_mem_rowSpan (n : ℕ) {t : Tableau ℚ} {r : BasicRow ℚ} (hr : r ∈ t.rows) :
    r.toRow.vector n ∈ t.rowSpan n := by
  obtain ⟨i,hi,rfl⟩ := List.getElem_of_mem hr
  exact Submodule.subset_span ⟨⟨i,hi⟩,rfl⟩

lemma rowSpan_le {n : ℕ} {t : Tableau ℚ} {S : Submodule ℚ (Fin n → ℚ)}
    (h : ∀ r ∈ t.rows, r.toRow.vector n ∈ S) : t.rowSpan n ≤ S := by
  rw [rowSpan,Submodule.span_le]
  rintro _ ⟨i,rfl⟩
  exact h _ (List.get_mem _ _)

theorem rowSpan_pivot_le {t : Tableau ℚ} {p : Pivot} {row : BasicRow ℚ} (n : ℕ)
    (hp : t.Admits p row) (ht : t.Rectangular) : (t.pivot p).rowSpan n ≤ t.rowSpan n := by
  refine rowSpan_le ((forall_mem_rows_pivot hp).mpr ?_)
  have hlead : (row.toRow.lead p.column).vector n ∈ t.rowSpan n := by
    have he : (row.toRow.lead p.column).vector n =
        (row.toRow.entry p.column)⁻¹ • row.toRow.vector n := by
      funext j
      simp [Row.vector,div_eq_inv_mul]
    rw [he]
    exact Submodule.smul_mem _ _ (vector_mem_rowSpan n hp.mem)
  refine ⟨hlead,fun i hi _ => ?_⟩
  have hr := List.getElem_mem hi
  have he : (t.rows[i].toRow.eliminate p.column (row.toRow.lead p.column)).vector n =
      t.rows[i].toRow.vector n -
        t.rows[i].toRow.entry p.column • (row.toRow.lead p.column).vector n := by
    funext j
    simp [Row.vector,Row.entry_eliminate (length_eq_lead hp ht (ht.row_length _ hr))]
  dsimp only
  rw [he]
  exact Submodule.sub_mem _ (vector_mem_rowSpan n hr) (Submodule.smul_mem _ _ hlead)

/-- Without their artificial columns the rows are linearly independent. -/
def Independent (t : Tableau ℚ) : Prop :=
  LinearIndependent ℚ fun (i : Fin t.rows.length)
    (j : {j : Fin t.columns.size // t.isArtificial j = false}) => (t.rows.get i).toRow.entry j

/-- A combination of independent rows that is zero outside the artificial columns is zero. -/
theorem Independent.eq_zero {t : Tableau ℚ} (ht : t.Independent) {v : Fin t.columns.size → ℚ}
    (hv : v ∈ t.rowSpan t.columns.size)
    (h0 : ∀ j : Fin t.columns.size, t.isArtificial j = false → v j = 0) : v = 0 := by
  obtain ⟨a,rfl⟩ := (Submodule.mem_span_range_iff_exists_fun ℚ).mp hv
  have ha : ∀ i, a i = 0 := by
    refine Fintype.linearIndependent_iff.mp ht a ?_
    funext j
    have := h0 j.1 j.2
    simpa [Finset.sum_apply,Row.vector] using this
  exact Finset.sum_eq_zero fun i _ => by rw [ha i,zero_smul]

end Tableau

namespace Solver
variable {s : Solver ℚ} (hs : 0 ≤ s.tolerance)
include hs

theorem rowSpan_run_le (n budget : ℕ) {t : Tableau ℚ} (ht : t.Canonical) :
    (s.run budget t).last.rowSpan n ≤ t.rowSpan n := by
  refine (s.run_preserves (P := fun u => u.Canonical ∧ u.rowSpan n ≤ t.rowSpan n) ?_ budget
    ⟨ht,le_rfl⟩).1.2
  rintro u p ⟨hu,hle⟩ hv
  obtain ⟨row,hp⟩ := chosen_of_verdict hs hu.toRectangular hv
  exact ⟨hu.pivot hp.toAdmits,(Tableau.rowSpan_pivot_le n hp.toAdmits hu.toRectangular).trans hle⟩

end Solver

end LinProg
