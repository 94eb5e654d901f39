import LinProg.Proofs.Row

/-!
Tableaux as systems of equations. A tableau in canonical form is solved for one column per row, so
every choice of values for the other columns extends to a solution.
-/
namespace LinProg
open scoped BigOperators

namespace Tableau

def Solves (t : Tableau ℚ) (x : ℕ → ℚ) : Prop := ∀ r ∈ t.rows, r.toRow.Holds x

/-- What the costs say of the values `x`: the number that a solve makes as large as it can. -/
def score (t : Tableau ℚ) (x : ℕ → ℚ) : ℚ := t.costs.residual x

/-- No basic column has a negative value. -/
def Nonneg (t : Tableau ℚ) : Prop := ∀ r ∈ t.rows, 0 ≤ r.rhs

structure Rectangular (t : Tableau ℚ) : Prop where
  costs_length : t.costs.entries.length = t.columns.size
  row_length : ∀ r ∈ t.rows, r.entries.length = t.columns.size

/-- The basic columns form an identity matrix, and the costs are zero in them. -/
structure Canonical (t : Tableau ℚ) : Prop extends Rectangular t where
  basic_lt : ∀ r ∈ t.rows, r.basic < t.columns.size
  unit : ∀ (i k : ℕ) (hi : i < t.rows.length) (hk : k < t.rows.length),
    t.rows[i].toRow.entry t.rows[k].basic = if i = k then 1 else 0
  priced : ∀ r ∈ t.rows, t.costs.entry r.basic = 0

/-- The values `x`, with those of the basic columns changed so that every row holds. -/
def settle (t : Tableau ℚ) (x : ℕ → ℚ) (c : ℕ) : ℚ :=
  x c + ∑ k : Fin t.rows.length, if c = t.rows[k].basic then t.rows[k].toRow.residual x else 0

/-- Any row, also one outside the tableau, at settled values. -/
lemma dot_settle {t : Tableau ℚ} {r : Row ℚ} (hr : r.entries.length = t.columns.size)
    (hb : ∀ s ∈ t.rows, s.basic < t.columns.size) (x : ℕ → ℚ) :
    r.dot (t.settle x) = r.dot x +
      ∑ k : Fin t.rows.length, r.entry t.rows[k].basic * t.rows[k].toRow.residual x := by
  unfold settle
  rw [Row.dot_add,Row.dot_sum]
  congr 1
  refine Finset.sum_congr rfl fun k _ => Row.dot_single ?_ _
  rw [hr]
  exact hb _ (List.getElem_mem _)

namespace Canonical
variable {t : Tableau ℚ} (h : t.Canonical)
include h

lemma basic_ne {i k : ℕ} (hi : i < t.rows.length) (hk : k < t.rows.length) (hik : i ≠ k) :
    t.rows[i].basic ≠ t.rows[k].basic := by
  intro he
  have hu := h.unit i i hi hi
  rw [he,h.unit i k hi hk,if_neg hik,if_pos rfl] at hu
  exact zero_ne_one hu

theorem basis_nodup : t.basis.Nodup := by
  rw [basis,List.Nodup,List.pairwise_map,List.pairwise_iff_getElem]
  intro i k hi hk hik
  exact h.basic_ne hi hk hik.ne

lemma settle_basic (x : ℕ → ℚ) {k : ℕ} (hk : k < t.rows.length) :
    t.settle x t.rows[k].basic = x t.rows[k].basic + t.rows[k].toRow.residual x := by
  unfold settle
  rw [Finset.sum_eq_single (⟨k,hk⟩ : Fin t.rows.length)]
  · simp
  · intro i _ hi
    exact if_neg (h.basic_ne hk i.isLt fun he => hi (Fin.ext he.symm))
  · simp

omit h in
lemma settle_of_not_basic (x : ℕ → ℚ) {c : ℕ} (hc : ∀ r ∈ t.rows, r.basic ≠ c) :
    t.settle x c = x c := by
  unfold settle
  rw [Finset.sum_eq_zero,add_zero]
  intro k _
  exact if_neg fun he => hc _ (List.getElem_mem _) he.symm

theorem solves_settle (x : ℕ → ℚ) : t.Solves (t.settle x) := by
  intro r hr
  obtain ⟨i,hi,rfl⟩ := List.getElem_of_mem hr
  rw [Row.Holds,dot_settle (h.row_length _ hr) h.basic_lt,
    Finset.sum_eq_single (⟨i,hi⟩ : Fin t.rows.length)]
  · simp [h.unit i i hi hi,Row.residual]
  · intro k _ hk
    have hik : i ≠ k := fun he => hk (Fin.ext he.symm)
    simp [h.unit i k hi k.isLt,hik]
  · simp

theorem score_settle (x : ℕ → ℚ) : t.score (t.settle x) = t.score x := by
  rw [score,Row.residual,dot_settle h.costs_length h.basic_lt,Finset.sum_eq_zero]
  · simp [score,Row.residual]
  · intro k _
    simp [h.priced _ (List.getElem_mem _)]

lemma valueOf_basic {k : ℕ} (hk : k < t.rows.length) :
    t.valueOf t.rows[k].basic = t.rows[k].rhs := by
  have hf : t.rows.find? (fun r => r.basic == t.rows[k].basic) = some t.rows[k] := by
    rw [List.find?_eq_some_iff_getElem]
    refine ⟨by simp,k,hk,rfl,fun i hi => ?_⟩
    simpa using h.basic_ne (hi.trans hk) hk hi.ne
  rw [valueOf,hf]

omit h in
lemma valueOf_of_not_basic {c : ℕ} (hc : ∀ r ∈ t.rows, r.basic ≠ c) : t.valueOf c = 0 := by
  have hf : t.rows.find? (fun r => r.basic == c) = none :=
    List.find?_eq_none.mpr fun r hr => by simpa using hc r hr
  rw [valueOf,hf]

/-- The basic solution settles the zero assignment. -/
theorem valueOf_eq_settle (c : ℕ) : t.valueOf c = t.settle (fun _ => 0) c := by
  by_cases hc : ∃ r ∈ t.rows, r.basic = c
  · obtain ⟨r,hr,rfl⟩ := hc
    obtain ⟨k,hk,rfl⟩ := List.getElem_of_mem hr
    rw [h.valueOf_basic hk,h.settle_basic _ hk]
    simp [Row.residual]
  · push Not at hc
    rw [valueOf_of_not_basic hc,settle_of_not_basic _ hc]

theorem solves_valueOf : t.Solves t.valueOf := by
  rw [funext h.valueOf_eq_settle]
  exact h.solves_settle _

theorem score_valueOf : t.score t.valueOf = t.costs.rhs := by
  rw [funext h.valueOf_eq_settle,h.score_settle]
  simp [score,Row.residual]

end Canonical

lemma Nonneg.valueOf {t : Tableau ℚ} (h : t.Nonneg) (c : ℕ) : 0 ≤ t.valueOf c := by
  unfold Tableau.valueOf
  split
  case h_1 r hr => exact h r (List.mem_of_find?_eq_some hr)
  case h_2 => exact le_rfl

end Tableau

end LinProg
