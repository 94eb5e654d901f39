import LinProg.Proofs.Margins
import LinProg.Proofs.Pricing

/-!
The first tableau of a program is in canonical form, with nonnegative right-hand sides. Its costs
say of a solution what the objective is worth, or the sum of the artificial columns.
-/
namespace LinProg
open scoped BigOperators

namespace Tableau

section Supplement
variable {m : ℕ} {r : Relation}

lemma basic_supplementAt : (supplementAt m r).basic = m+(r.addedKinds.length-1) := by
  cases r <;> rfl

lemma length_addedKinds_pos : 0 < r.addedKinds.length := by
  cases r <;> simp [Relation.addedKinds]

lemma lookup_basic : (supplementAt m r).units.lookup (supplementAt m r).basic = some 1 := by
  cases r <;> simp [supplementAt,List.lookup_cons,beq_false_of_ne]

lemma lookup_outside {j : ℕ} (hj : j < m ∨ m+r.addedKinds.length ≤ j) :
    (supplementAt m r).units.lookup j = none := by
  rw [List.lookup_eq_none_iff]
  cases r <;> simp [supplementAt,Relation.addedKinds] at hj ⊢ <;> omega

end Supplement

lemma isAdded_of_mem_kindsOf {cs : List (Constraint ℚ)} {kind : Kind} (h : kind ∈ kindsOf cs) :
    kind.isAdded = true := by
  have hall : ∀ r : Relation, ∀ kind ∈ r.addedKinds, kind.isAdded = true := by
    intro r
    cases r <;> decide
  obtain ⟨c,-,hc⟩ := List.mem_flatMap.mp h
  exact hall _ _ hc

lemma rhs_rowOf_nonneg (own : List Variable) (added : ℕ) (e : Constraint ℚ × ℕ) :
    0 ≤ (rowOf own added e).rhs := by
  simp only [rowOf,Constraint.rowSign]
  split <;> linarith

/-- The costs of the sum of the artificial variables, before the rows are taken in. -/
def artificialStart (columns : Registry) : Row ℚ :=
  ⟨columns.members.map fun v => if v.isArtificial then -1 else 0,0⟩

def artificialSum (t : Tableau ℚ) (x : ℕ → ℚ) : ℚ :=
  ∑ j ∈ Finset.range t.columns.size, if t.isArtificial j then x j else 0

section Costs
variable {columns : Registry}

lemma entry_artificialStart {j : ℕ} (hj : j < columns.size) :
    (artificialStart columns).entry j = if columns.isArtificial j then -1 else 0 := by
  have hj' : j < columns.members.length := hj
  simp [artificialStart,Row.entry,List.getD_eq_getElem?_getD,hj',Registry.isArtificial,Registry.at?]

lemma length_artificialStart : (artificialStart columns).entries.length = columns.size := by
  simp [artificialStart,Registry.size]

lemma residual_artificialStart (t : Tableau ℚ) (x : ℕ → ℚ) :
    (artificialStart t.columns).residual x = t.artificialSum x := by
  rw [Row.residual,Row.dot,length_artificialStart,artificialSum,artificialStart,zero_sub,
    ← Finset.sum_neg_distrib]
  apply Finset.sum_congr rfl
  intro j hj
  have := entry_artificialStart (Finset.mem_range.mp hj)
  rw [artificialStart] at this
  rw [this,isArtificial]
  split <;> ring

/-- A row is added to costs of -1 in its basic column, and left alone where these are 0. -/
lemma zipWith_eq_eliminate {costs : Row ℚ} {r : BasicRow ℚ}
    (hc : costs.entry r.basic = if columns.isArtificial r.basic then -1 else 0) :
    (if columns.isArtificial r.basic then costs.zipWith (· + ·) r.toRow else costs) =
      costs.eliminate r.basic r.toRow := by
  unfold Row.eliminate
  dsimp only
  split at hc
  case isTrue ha =>
    rw [if_pos ha,hc,if_neg (by decide)]
    congr 1
    funext value q
    ring
  case isFalse ha =>
    rw [if_neg ha,hc]
    exact (if_pos (by decide)).symm

/-- Adding the rows that start with an artificial column is clearing the basic columns, because the
costs are -1 there and 0 in the other basic columns. -/
lemma foldl_add_eq_priceOut {rows : List (BasicRow ℚ)} {costs : Row ℚ}
    (hc : ∀ r ∈ rows, costs.entry r.basic = if columns.isArtificial r.basic then -1 else 0)
    (hl : ∀ r ∈ rows, r.entries.length = costs.entries.length)
    (hz : rows.Pairwise fun r s => r.toRow.entry s.basic = 0) :
    (rows.filter fun row => columns.isArtificial row.basic).foldl
      (fun costs row => costs.zipWith (· + ·) row.toRow) costs = priceOut costs rows := by
  induction rows generalizing costs with
  | nil => rfl
  | cons r rows ih =>
    obtain ⟨hzr,hz⟩ := List.pairwise_cons.mp hz
    have hstep := zipWith_eq_eliminate (hc r (by simp))
    have hentry : ∀ s ∈ rows, (costs.eliminate r.basic r.toRow).entry s.basic =
        if columns.isArtificial s.basic then -1 else 0 := fun s hs => by
      rw [Row.entry_eliminate (hl r (by simp)).symm,hzr s hs,mul_zero,sub_zero]
      exact hc s (List.mem_cons_of_mem r hs)
    refine Eq.trans ?_ (ih hentry (length_eq_eliminate hl) hz)
    dsimp only
    rw [← hstep,List.filter_cons]
    by_cases ha : columns.isArtificial r.basic = true
    · rw [if_pos ha,if_pos ha,List.foldl_cons]
    · rw [if_neg ha,if_neg ha]

end Costs

namespace StandardForm
variable {p : Program ℚ} {t : Tableau ℚ} (h : StandardForm p t)
include h

/-- The row of the tableau for the `i`-th constraint. -/
lemma getElem_rows {i : ℕ} (hi : i < t.rows.length) :
    ∃ hi' : i < (placed p.own.size p.constraints).length, t.rows[i] =
      rowOf p.own.members (t.columns.size-p.own.size) (placed p.own.size p.constraints)[i] := by
  have hi' : i < (placed p.own.size p.constraints).length := by
    rw [h.rows] at hi
    simpa using hi
  refine ⟨hi',?_⟩
  rw [List.getElem_of_eq h.rows,List.getElem_map]

lemma forall_mem_rows {P : BasicRow ℚ → Prop}
    (hP : ∀ e ∈ placed p.own.size p.constraints,
      P (rowOf p.own.members (t.columns.size-p.own.size) e)) : ∀ r ∈ t.rows, P r := by
  rw [h.rows,List.forall_mem_map]
  exact hP

lemma row_length : ∀ r ∈ t.rows, r.entries.length = t.columns.size := by
  have hsize := h.size_columns
  refine h.forall_mem_rows fun e _ => ?_
  rw [length_rowOf]
  omega

lemma basic_lt : ∀ r ∈ t.rows, r.basic < t.columns.size := by
  have hsize := h.size_columns
  refine h.forall_mem_rows fun e he => ?_
  obtain ⟨-,hhi⟩ := placed_bounds he
  have hpos := e.1.length_addedKinds_pos
  rw [Constraint.addedKinds] at hhi hpos
  change (supplementAt e.2 e.1.rowRelation).basic < _
  rw [basic_supplementAt]
  omega

/-- A row at the column that another one starts solved for. -/
lemma entry_basic {e e' : Constraint ℚ × ℕ} (he' : e' ∈ placed p.own.size p.constraints) :
    (rowOf p.own.members (t.columns.size-p.own.size) e).toRow.entry
      (supplementAt e'.2 e'.1.rowRelation).basic =
      ((supplementAt e.2 e.1.rowRelation).units.lookup
        (supplementAt e'.2 e'.1.rowRelation).basic).getD 0 := by
  have hsize := h.size_columns
  obtain ⟨hlo,hhi⟩ := placed_bounds he'
  have hpos := e'.1.length_addedKinds_pos
  rw [Constraint.addedKinds] at hhi hpos
  obtain ⟨j,hj⟩ : ∃ j, (supplementAt e'.2 e'.1.rowRelation).basic = p.own.size+j :=
    Nat.exists_eq_add_of_le (by rw [basic_supplementAt]; omega)
  rw [hj,entry_rowOf_added]
  rw [basic_supplementAt] at hj
  omega

lemma unit (i k : ℕ) (hi : i < t.rows.length) (hk : k < t.rows.length) :
    t.rows[i].toRow.entry t.rows[k].basic = if i = k then 1 else 0 := by
  obtain ⟨hi',hri⟩ := h.getElem_rows hi
  obtain ⟨hk',hrk⟩ := h.getElem_rows hk
  rw [hri,hrk]
  change (rowOf _ _ _).toRow.entry (supplementAt _ _).basic = _
  rw [h.entry_basic (List.getElem_mem hk')]
  split
  case isTrue hik =>
    subst hik
    rw [lookup_basic]
    rfl
  case isFalse hik =>
    have hpair := List.pairwise_iff_getElem.mp (placed_pairwise p.own.size p.constraints)
    rw [lookup_outside]
    · rfl
    · rw [basic_supplementAt]
      have hpos := length_addedKinds_pos
        (r := (placed p.own.size p.constraints)[k].1.rowRelation)
      rcases Nat.lt_or_gt_of_ne hik with hlt | hlt
      · have := hpair i k hi' hk' hlt
        rw [Constraint.addedKinds] at this
        omega
      · have := hpair k i hk' hi' hlt
        rw [Constraint.addedKinds] at this
        omega

theorem nonneg : t.Nonneg := h.forall_mem_rows fun e _ => rhs_rowOf_nonneg _ _ e

lemma own_le_basic : ∀ r ∈ t.rows, p.own.size ≤ r.basic := by
  refine h.forall_mem_rows fun e he => ?_
  change _ ≤ (supplementAt e.2 e.1.rowRelation).basic
  rw [basic_supplementAt]
  exact (placed_bounds he).1.trans (Nat.le_add_right _ _)

lemma pairwise_unit : t.rows.Pairwise fun r s => r.toRow.entry s.basic = 0 := by
  rw [List.pairwise_iff_getElem]
  intro i k hi hk hik
  rw [h.unit i k hi hk,if_neg hik.ne]

/-- Without artificial columns a single phase is enough. -/
lemma not_isArtificial_of_single (hs : t.phase = .single) (hp : p.Covered) (j : ℕ) :
    t.isArtificial j = false := by
  have hnot : .artificial ∉ kindsOf p.constraints := by
    intro hmem
    have := h.phase
    rw [hs,if_pos hmem] at this
    contradiction
  rw [Bool.eq_false_iff,ne_eq,h.isArtificial_iff]
  intro hsome
  rcases lt_or_ge j p.own.size with hlt | hge
  · have := h.isArtificial_own hp hlt
    rw [Bool.eq_false_iff,ne_eq,h.isArtificial_iff] at this
    exact this hsome
  · rw [List.getElem?_append_right (by simpa [Registry.size] using hge)] at hsome
    exact hnot (List.mem_of_getElem? hsome)

section Costs
variable (e : Equation ℚ)

/-- The objective has no costs in the added columns. -/
lemma entry_objectiveCosts_added {j : ℕ} (hlo : p.own.size ≤ j) (hj : j < t.columns.size) :
    (objectiveCosts t.columns e).entry j = 0 := by
  have hj' : j < t.columns.members.length := hj
  have hkind : (t.columns.members[j]).kind ∈ kindsOf p.constraints := by
    have hsome : (t.columns.members.map Variable.kind)[j]? = some (t.columns.members[j]).kind := by
      rw [List.getElem?_map,List.getElem?_eq_getElem hj',Option.map_some]
    rw [h.kinds,List.getElem?_append_right (by simpa [Registry.size] using hlo)] at hsome
    exact List.mem_of_getElem? hsome
  simp [Row.entry,objectiveCosts,List.getD_eq_getElem?_getD,hj',isAdded_of_mem_kindsOf hkind]

variable (hp : p.Covered)
include hp

lemma entry_objectiveCosts_own {j : ℕ} (hj : j < p.own.size) :
    (objectiveCosts t.columns e).entry j = -e.coefficientAt p.own j := by
  have hj' : j < p.own.members.length := hj
  obtain ⟨vs,hm,-⟩ := h.members
  have hd := hp.decisions _ (Program.getElem_own_mem hj')
  simp only [Row.entry,objectiveCosts,List.getD_eq_getElem?_getD,hm,List.getElem?_map,
    List.getElem?_append_left hj',List.getElem?_eq_getElem hj',Option.map_some,Option.getD_some,hd,
    Equation.coefficientAt,Registry.at?,Option.bind_some]
  cases e.get? p.own.members[j].index <;> simp [Kind.isAdded]

/-- The costs of an expression say what it is worth at the point of the first columns. -/
theorem residual_objectiveCosts (x : ℕ → ℚ) :
    (objectiveCosts t.columns e).residual x = e.evaluate (p.own.point x) := by
  have hsize := h.size_columns
  rw [Row.residual,Row.dot,length_objectiveCosts,hsize,Finset.sum_range_add,
    Equation.evaluate_point hp.own_ordered]
  have hback : ∑ j ∈ Finset.range (kindsOf p.constraints).length,
      (objectiveCosts t.columns e).entry (p.own.size+j) * x (p.own.size+j) = 0 := by
    apply Finset.sum_eq_zero
    intro j hj
    have := Finset.mem_range.mp hj
    rw [h.entry_objectiveCosts_added e (by omega) (by omega),zero_mul]
  rw [hback,add_zero,objectiveCosts,zero_sub,← Finset.sum_neg_distrib]
  apply Finset.sum_congr rfl
  intro j hj
  have := h.entry_objectiveCosts_own e hp (Finset.mem_range.mp hj)
  rw [objectiveCosts] at this
  rw [this]
  ring

end Costs

lemma costs_of_two (h2 : t.phase = .two) :
    t.costs = priceOut (artificialStart t.columns) t.rows := by
  rw [h.costs,h2]
  dsimp only
  rw [artificialCosts]
  refine foldl_add_eq_priceOut (fun r hr => ?_) (fun r hr => ?_) h.pairwise_unit
  · exact entry_artificialStart (h.basic_lt r hr)
  · rw [h.row_length r hr]
    exact length_artificialStart.symm

/-- The costs of phase 1 say of a solution what its artificial columns sum up to. -/
theorem score_of_two (h2 : t.phase = .two) {x : ℕ → ℚ} (hx : t.Solves x) :
    t.score x = t.artificialSum x := by
  rw [score,h.costs_of_two h2,residual_priceOut _ hx,residual_artificialStart]
  intro r hr
  rw [h.row_length r hr,length_artificialStart]

theorem score_of_single (hs : t.phase = .single) (hp : p.Covered) (x : ℕ → ℚ) :
    t.score x = p.objective.maximized.evaluate (p.own.point x) := by
  have hc := h.costs
  rw [hs] at hc
  rw [score,hc]
  exact h.residual_objectiveCosts _ hp x

theorem canonical : t.Canonical := by
  have hlen : ∀ r ∈ t.rows, r.entries.length = (artificialStart t.columns).entries.length :=
    fun r hr => by rw [h.row_length r hr,length_artificialStart]
  have hc := h.costs
  cases hs : t.phase with
  | single =>
    rw [hs] at hc
    refine ⟨⟨?_,h.row_length⟩,h.basic_lt,h.unit,fun r hr => ?_⟩
    · rw [hc]
      exact length_objectiveCosts _ _
    · rw [hc]
      exact h.entry_objectiveCosts_added _ (h.own_le_basic r hr) (h.basic_lt r hr)
  | two =>
    have hc := h.costs_of_two hs
    refine ⟨⟨?_,h.row_length⟩,h.basic_lt,h.unit,?_⟩
    · rw [hc,length_priceOut hlen,length_artificialStart]
    · rw [hc]
      refine entry_priceOut_basic hlen (fun r hr => ?_) ?_
      · obtain ⟨i,hi,rfl⟩ := List.getElem_of_mem hr
        rw [h.unit i i hi hi,if_pos rfl]
      · rw [List.pairwise_iff_getElem]
        intro i k hi hk hik
        rw [h.unit k i hk hi,if_neg hik.ne']

end StandardForm

end Tableau

end LinProg
