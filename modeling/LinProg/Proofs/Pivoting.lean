import LinProg.Proofs.Canonical
import LinProg.Tableau.Pivot

/-!
A pivot is a change of form only: the equations keep their solutions, and the costs keep what they
say of each solution. The canonical form survives every pivot on a nonzero entry.
-/
namespace LinProg

/-- The row divided by one of its entries: what a pivot turns its row into. -/
def Row.lead (r : Row ℚ) (c : ℕ) : Row ℚ := r.map (· / r.entry c)

@[simp] lemma Row.length_lead (r : Row ℚ) (c : ℕ) :
    (r.lead c).entries.length = r.entries.length := by simp [lead]

@[simp] lemma Row.entry_lead (r : Row ℚ) (c j : ℕ) :
    (r.lead c).entry j = r.entry j / r.entry c := by simp [lead]

@[simp] lemma Row.rhs_lead (r : Row ℚ) (c : ℕ) : (r.lead c).rhs = r.rhs / r.entry c := rfl

@[simp] lemma Row.residual_lead (r : Row ℚ) (c : ℕ) (x : ℕ → ℚ) :
    (r.lead c).residual x = r.residual x / r.entry c := residual_map_div r _ x

namespace Tableau

/-- Two forms of one system: same columns, same solutions, and the same score for each of them. -/
structure Equivalent (t u : Tableau ℚ) : Prop where
  columns : u.columns = t.columns
  objective : u.objective = t.objective
  minimizes : u.minimizes = t.minimizes
  solves : ∀ x, u.Solves x ↔ t.Solves x
  score : ∀ x, t.Solves x → u.score x = t.score x

lemma Equivalent.refl (t : Tableau ℚ) : t.Equivalent t :=
  ⟨rfl,rfl,rfl,fun _ => Iff.rfl,fun _ _ => rfl⟩

lemma Equivalent.trans {t u v : Tableau ℚ} (h : t.Equivalent u) (k : u.Equivalent v) :
    t.Equivalent v where
  columns := k.columns.trans h.columns
  objective := k.objective.trans h.objective
  minimizes := k.minimizes.trans h.minimizes
  solves x := (k.solves x).trans (h.solves x)
  score x hx := (k.score x ((h.solves x).mpr hx)).trans (h.score x hx)

lemma Equivalent.symm {t u : Tableau ℚ} (h : t.Equivalent u) : u.Equivalent t where
  columns := h.columns.symm
  objective := h.objective.symm
  minimizes := h.minimizes.symm
  solves x := (h.solves x).symm
  score x hx := (h.score x ((h.solves x).mp hx)).symm

/-- `row` is the row of a pivot, and its entry in the column of the pivot is not zero. -/
structure Admits (t : Tableau ℚ) (p : Pivot) (row : BasicRow ℚ) : Prop where
  row_eq : t.rows[p.row]? = some row
  column_lt : p.column < t.columns.size
  entry_ne : row.toRow.entry p.column ≠ 0

section Pivot
variable {t : Tableau ℚ} {p : Pivot} {row : BasicRow ℚ} (hp : t.Admits p row)
include hp

lemma Admits.mem : row ∈ t.rows := List.mem_of_getElem? hp.row_eq

lemma Admits.row_lt : p.row < t.rows.length := (List.getElem?_eq_some_iff.mp hp.row_eq).1

lemma Admits.getElem (hi : p.row < t.rows.length) : t.rows[p.row] = row :=
  (List.getElem?_eq_some_iff.mp hp.row_eq).2

lemma pivot_eq : t.pivot p =
    { t with
      costs := t.costs.eliminate p.column (row.toRow.lead p.column)
      rows := t.rows.mapIdx fun i r =>
        if i = p.row then { toRow := row.toRow.lead p.column, basic := p.column }
        else { r with toRow := r.toRow.eliminate p.column (row.toRow.lead p.column) } } := by
  unfold pivot
  rw [hp.row_eq]
  rfl

lemma getElem_rows_pivot {i : ℕ} (hi : i < t.rows.length) (hi' : i < (t.pivot p).rows.length) :
    (t.pivot p).rows[i] =
      if i = p.row then { toRow := row.toRow.lead p.column, basic := p.column }
      else { t.rows[i] with
        toRow := t.rows[i].toRow.eliminate p.column (row.toRow.lead p.column) } := by
  simp only [pivot_eq hp,List.getElem_mapIdx]

/-- The rows of the pivoted tableau: the pivot row, divided, and the others, with the column
cleared. -/
lemma forall_mem_rows_pivot {P : BasicRow ℚ → Prop} :
    (∀ r ∈ (t.pivot p).rows, P r) ↔
      P { toRow := row.toRow.lead p.column, basic := p.column } ∧
      ∀ (i : ℕ) (hi : i < t.rows.length), i ≠ p.row →
        P { t.rows[i] with
          toRow := t.rows[i].toRow.eliminate p.column (row.toRow.lead p.column) } := by
  rw [List.forall_mem_iff_forall_getElem]
  simp only [length_rows_pivot]
  constructor
  · intro h
    refine ⟨?_,fun i hi hne => ?_⟩
    · have := h p.row hp.row_lt
      rwa [getElem_rows_pivot hp hp.row_lt,if_pos rfl] at this
    · have := h i hi
      rwa [getElem_rows_pivot hp hi,if_neg hne] at this
  · rintro ⟨hrow,hrest⟩ i hi
    rw [getElem_rows_pivot hp hi]
    split
    case isTrue => exact hrow
    case isFalse hne => exact hrest i hi hne

variable (ht : t.Rectangular)
include ht

lemma length_eq_lead {r : Row ℚ} (hr : r.entries.length = t.columns.size) :
    r.entries.length = (row.toRow.lead p.column).entries.length := by
  rw [Row.length_lead,hr,ht.row_length _ hp.mem]

theorem rectangular_pivot : (t.pivot p).Rectangular where
  costs_length := by
    rw [columns_pivot,pivot_eq hp]
    exact (Row.length_entries_eliminate (length_eq_lead hp ht ht.costs_length) _).trans
      ht.costs_length
  row_length := by
    rw [columns_pivot,forall_mem_rows_pivot hp]
    refine ⟨?_,fun i hi _ => ?_⟩
    · exact (Row.length_lead _ _).trans (ht.row_length _ hp.mem)
    · have hr := ht.row_length _ (List.getElem_mem hi)
      exact (Row.length_entries_eliminate (length_eq_lead hp ht hr) _).trans hr

/-- Over the pivot row as an equation, clearing the column adds or removes nothing. -/
theorem solves_pivot (x : ℕ → ℚ) : (t.pivot p).Solves x ↔ t.Solves x := by
  rw [Solves,forall_mem_rows_pivot hp]
  simp only [Row.holds_iff_residual,Row.residual_lead,div_eq_zero_iff,hp.entry_ne,or_false]
  constructor
  · rintro ⟨hrow,hrest⟩ r hr
    obtain ⟨i,hi,rfl⟩ := List.getElem_of_mem hr
    rw [Row.holds_iff_residual]
    by_cases hne : i = p.row
    · subst hne
      rw [hp.getElem]
      exact hrow
    · have h := hrest i hi hne
      rwa [Row.residual_eliminate (length_eq_lead hp ht (ht.row_length _ hr)),Row.residual_lead,
        hrow,zero_div,mul_zero,sub_zero] at h
  · intro h
    have hrow := Row.holds_iff_residual.mp (h _ hp.mem)
    refine ⟨hrow,fun i hi _ => ?_⟩
    have hr := List.getElem_mem hi
    rw [Row.residual_eliminate (length_eq_lead hp ht (ht.row_length _ hr)),Row.residual_lead,hrow,
      Row.holds_iff_residual.mp (h _ hr)]
    ring

theorem score_pivot {x : ℕ → ℚ} (hx : t.Solves x) : (t.pivot p).score x = t.score x := by
  have hrow := Row.holds_iff_residual.mp (hx _ hp.mem)
  rw [score,pivot_eq hp]
  dsimp only
  rw [Row.residual_eliminate (length_eq_lead hp ht ht.costs_length),Row.residual_lead,hrow,zero_div,
    mul_zero,sub_zero,score]

theorem equivalent_pivot : t.Equivalent (t.pivot p) where
  columns := columns_pivot t p
  objective := by rw [pivot_eq hp]
  minimizes := by rw [pivot_eq hp]
  solves := solves_pivot hp ht
  score _ := score_pivot hp ht

end Pivot

/-- A pivot on any nonzero entry leads from one canonical form to another. -/
theorem Canonical.pivot {t : Tableau ℚ} {p : Pivot} {row : BasicRow ℚ} (ht : t.Canonical)
    (hp : t.Admits p row) : (t.pivot p).Canonical where
  toRectangular := rectangular_pivot hp ht.toRectangular
  basic_lt := by
    rw [columns_pivot,forall_mem_rows_pivot hp]
    exact ⟨hp.column_lt,fun i hi _ => ht.basic_lt t.rows[i] (List.getElem_mem hi)⟩
  unit := by
    intro i k hi hk
    rw [length_rows_pivot] at hi hk
    have hlen := fun (r : BasicRow ℚ) hr =>
      length_eq_lead hp ht.toRectangular (ht.row_length r hr)
    have hi' := List.getElem_mem hi
    rw [getElem_rows_pivot hp hi,getElem_rows_pivot hp hk]
    by_cases hkp : k = p.row
    · by_cases hip : i = p.row
      · simp [hkp,hip,hp.entry_ne]
      · simp [hkp,hip,Row.entry_eliminate (hlen _ hi'),hp.entry_ne]
    · have hz : row.toRow.entry t.rows[k].basic = 0 := by
        have := ht.unit p.row k hp.row_lt hk
        rwa [hp.getElem,if_neg (Ne.symm hkp)] at this
      by_cases hip : i = p.row
      · have hne : p.row ≠ k := Ne.symm hkp
        simp [hkp,hip,hz,hne]
      · simp [hkp,hip,Row.entry_eliminate (hlen _ hi'),hz,ht.unit i k hi hk]
  priced := by
    have hlen := length_eq_lead hp ht.toRectangular ht.costs_length
    have hc : (t.pivot p).costs = t.costs.eliminate p.column (row.toRow.lead p.column) := by
      rw [pivot_eq hp]
    rw [hc,forall_mem_rows_pivot hp]
    refine ⟨?_,fun i hi hne => ?_⟩
    · simp [Row.entry_eliminate hlen,hp.entry_ne]
    · have hz := ht.unit p.row i hp.row_lt hi
      rw [hp.getElem,if_neg hne.symm] at hz
      simp [Row.entry_eliminate hlen,ht.priced _ (List.getElem_mem hi),hz]

/-- The right-hand sides after a pivot stay nonnegative if the ratio of the pivot row bounds the
column from above: no other row with a positive entry has a smaller ratio. -/
theorem Nonneg.pivot {t : Tableau ℚ} {p : Pivot} {row : BasicRow ℚ} (ht : t.Nonneg)
    (hp : t.Admits p row) (hpos : 0 < row.toRow.entry p.column)
    (hmin : ∀ r ∈ t.rows, 0 < r.toRow.entry p.column →
      r.toRow.entry p.column * (row.rhs / row.toRow.entry p.column) ≤ r.rhs) :
    (t.pivot p).Nonneg := by
  have hratio : 0 ≤ row.rhs / row.toRow.entry p.column := div_nonneg (ht _ hp.mem) hpos.le
  rw [Nonneg,forall_mem_rows_pivot hp]
  refine ⟨hratio,fun i hi _ => ?_⟩
  have hr := List.getElem_mem hi
  rw [Row.rhs_eliminate,Row.rhs_lead,sub_nonneg]
  by_cases he : 0 < t.rows[i].toRow.entry p.column
  · exact hmin _ hr he
  · exact (mul_nonpos_of_nonpos_of_nonneg (not_lt.mp he) hratio).trans (ht _ hr)

end Tableau

end LinProg
