import LinProg.Proofs.Pivoting

/-!
The change of costs between the phases. Clearing the basic columns, one row after the other, leaves
the costs as they were on every solution and zero in every basic column.
-/
namespace LinProg

namespace Tableau

/-- Negating the costs negates the score and keeps the rows. -/
@[simp] lemma score_negateCosts (t : Tableau ℚ) (x : ℕ → ℚ) :
    t.negateCosts.score x = -t.score x := Row.residual_map_neg _ _

theorem Canonical.negateCosts {t : Tableau ℚ} (ht : t.Canonical) : t.negateCosts.Canonical where
  costs_length := (Row.length_entries_map _ _).trans ht.costs_length
  row_length := ht.row_length
  basic_lt := ht.basic_lt
  unit := ht.unit
  priced r hr := by
    rw [Tableau.negateCosts]
    dsimp only
    rw [Row.entry_map,ht.priced r hr]
    exact neg_zero

/-- Clears the basic columns of the rows in `costs`, in the order of the rows. -/
def priceOut (costs : Row ℚ) (rows : List (BasicRow ℚ)) : Row ℚ :=
  rows.foldl (fun costs row => costs.eliminate row.basic row.toRow) costs

/-- Taking out one row leaves the costs as long as the others. -/
lemma length_eq_eliminate {r : BasicRow ℚ} {rows : List (BasicRow ℚ)} {costs : Row ℚ}
    (h : ∀ s ∈ r::rows, s.entries.length = costs.entries.length) :
    ∀ s ∈ rows, s.entries.length = (costs.eliminate r.basic r.toRow).entries.length := by
  intro s hs
  rw [Row.length_entries_eliminate (h r (by simp)).symm]
  exact h s (List.mem_cons_of_mem r hs)

lemma length_priceOut {rows : List (BasicRow ℚ)} {costs : Row ℚ}
    (h : ∀ r ∈ rows, r.entries.length = costs.entries.length) :
    (priceOut costs rows).entries.length = costs.entries.length := by
  induction rows generalizing costs with
  | nil => rfl
  | cons r rows ih =>
    exact (ih (length_eq_eliminate h)).trans
      (Row.length_entries_eliminate (h r (by simp)).symm r.basic)

/-- On values that satisfy the rows nothing is subtracted. -/
lemma residual_priceOut {rows : List (BasicRow ℚ)} {costs : Row ℚ} {x : ℕ → ℚ}
    (h : ∀ r ∈ rows, r.entries.length = costs.entries.length)
    (hx : ∀ r ∈ rows, r.toRow.Holds x) :
    (priceOut costs rows).residual x = costs.residual x := by
  induction rows generalizing costs with
  | nil => rfl
  | cons r rows ih =>
    refine (ih (length_eq_eliminate h) fun s hs => hx s (List.mem_cons_of_mem r hs)).trans ?_
    rw [Row.residual_eliminate (h r (by simp)).symm,Row.holds_iff_residual.mp (hx r (by simp)),mul_zero,sub_zero]

/-- Rows that are zero in a column leave the costs of it alone. -/
lemma entry_priceOut_of_zero {rows : List (BasicRow ℚ)} {costs : Row ℚ} {j : ℕ}
    (h : ∀ r ∈ rows, r.entries.length = costs.entries.length)
    (hj : ∀ r ∈ rows, r.toRow.entry j = 0) :
    (priceOut costs rows).entry j = costs.entry j := by
  induction rows generalizing costs with
  | nil => rfl
  | cons r rows ih =>
    refine (ih (length_eq_eliminate h) fun s hs => hj s (List.mem_cons_of_mem r hs)).trans ?_
    rw [Row.entry_eliminate (h r (by simp)).symm,hj r (by simp),mul_zero,sub_zero]

/-- A column that was cleared stays so, because every later row is zero in it. -/
lemma entry_priceOut_basic {rows : List (BasicRow ℚ)} {costs : Row ℚ}
    (h : ∀ r ∈ rows, r.entries.length = costs.entries.length)
    (hone : ∀ r ∈ rows, r.toRow.entry r.basic = 1)
    (hzero : rows.Pairwise fun r s => s.toRow.entry r.basic = 0) :
    ∀ r ∈ rows, (priceOut costs rows).entry r.basic = 0 := by
  induction rows generalizing costs with
  | nil => simp
  | cons r rows ih =>
    obtain ⟨hz,hrest⟩ := List.pairwise_cons.mp hzero
    rintro s hs
    rcases List.mem_cons.mp hs with rfl | hs
    · refine (entry_priceOut_of_zero (length_eq_eliminate h) hz).trans ?_
      rw [Row.entry_eliminate (h s (by simp)).symm,hone s (by simp),mul_one,sub_self]
    · exact ih (length_eq_eliminate h) (fun s hs => hone s (List.mem_cons_of_mem r hs)) hrest s hs

section EnterObjective
variable {t : Tableau ℚ}

lemma length_objectiveCosts (columns : Registry) (e : Equation ℚ) :
    (objectiveCosts columns e).entries.length = columns.size := by
  simp [objectiveCosts,Registry.size]

lemma costs_enterObjective (t : Tableau ℚ) :
    t.enterObjective.costs = priceOut (objectiveCosts t.columns t.objective) t.rows := rfl

lemma Rectangular.length_row (ht : t.Rectangular) : ∀ r ∈ t.rows,
    r.entries.length = (objectiveCosts t.columns t.objective).entries.length := fun r hr => by
  rw [ht.row_length r hr,length_objectiveCosts]

/-- What the entered costs say of a solution is the value of the objective alone. -/
theorem score_enterObjective (ht : t.Rectangular) {x : ℕ → ℚ} (hx : t.Solves x) :
    t.enterObjective.score x = (objectiveCosts t.columns t.objective).residual x := by
  rw [score,costs_enterObjective]
  exact residual_priceOut ht.length_row hx

/-- The basic columns form an identity matrix. The costs may be anything. -/
structure IdentityBasis (t : Tableau ℚ) : Prop extends Rectangular t where
  basic_lt : ∀ r ∈ t.rows, r.basic < t.columns.size
  unit : ∀ (i k : ℕ) (hi : i < t.rows.length) (hk : k < t.rows.length),
    t.rows[i].toRow.entry t.rows[k].basic = if i = k then 1 else 0

lemma Canonical.identityBasis (ht : t.Canonical) : t.IdentityBasis :=
  ⟨ht.toRectangular,ht.basic_lt,ht.unit⟩

lemma IdentityBasis.entry_basic (ht : t.IdentityBasis) :
    ∀ r ∈ t.rows, r.toRow.entry r.basic = 1 := by
  intro r hr
  obtain ⟨i,hi,rfl⟩ := List.getElem_of_mem hr
  rw [ht.unit i i hi hi,if_pos rfl]

/-- Each row is zero in the basic columns of the others. -/
lemma IdentityBasis.entry_other (ht : t.IdentityBasis) :
    t.rows.Pairwise fun r s => s.toRow.entry r.basic = 0 ∧ r.toRow.entry s.basic = 0 := by
  rw [List.pairwise_iff_getElem]
  intro i k hi hk hik
  exact ⟨by rw [ht.unit k i hk hi,if_neg hik.ne'],by rw [ht.unit i k hi hk,if_neg hik.ne]⟩

/-- Entering the objective makes a canonical form of any tableau with an identity matrix. -/
theorem IdentityBasis.enterObjective (ht : t.IdentityBasis) : t.enterObjective.Canonical := by
  have hlen := ht.length_row
  refine ⟨⟨?_,ht.row_length⟩,ht.basic_lt,ht.unit,?_⟩
  · rw [costs_enterObjective,length_priceOut hlen]
    exact length_objectiveCosts _ _
  · change ∀ r ∈ t.rows, _
    rw [costs_enterObjective]
    exact entry_priceOut_basic hlen ht.entry_basic (ht.entry_other.imp And.left)

theorem Canonical.enterObjective (ht : t.Canonical) : t.enterObjective.Canonical :=
  ht.identityBasis.enterObjective

end EnterObjective

end Tableau

end LinProg
