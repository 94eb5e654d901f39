import LinProg.Proofs.Pivoting
import LinProg.Solver.Choice
import Mathlib.Data.List.MinMax

/-!
The choice of a pivot over the rationals: what a tableau satisfies after each of the three verdicts.
-/
namespace LinProg

@[simp] lemma Scalar.magnitude_eq_abs (x : ℚ) : Scalar.magnitude x = |x| := by
  unfold magnitude
  split
  case isTrue h => exact (abs_of_neg h).symm
  case isFalse h => exact (abs_of_nonneg (not_lt.mp h)).symm

@[simp] lemma Scalar.plainZero_eq (x : ℚ) : Scalar.plainZero x = x := by
  unfold plainZero
  split
  case isTrue h => exact (by simpa using h : x = 0).symm
  case isFalse => rfl

namespace Solver

lemma firstLeast_mem {K : Type} [Scalar K] {l : List (ℕ × K)} {b : ℕ × K}
    (h : firstLeast l = some b) : b ∈ l := by
  cases l with
  | nil => contradiction
  | cons first rest =>
    obtain rfl := Option.some.inj h
    exact List.foldlRecOn rest _ (List.mem_cons_self ..) fun best hbest next hnext => by
      split
      · exact List.mem_cons_of_mem _ hnext
      · exact hbest

variable (s : Solver ℚ)

/-- The scan keeps the first of the pairs with the least number. -/
theorem firstLeast_eq_argmin (l : List (ℕ × ℚ)) : firstLeast l = l.argmin Prod.snd := by
  cases l with
  | nil => rfl
  | cons first rest =>
    have hstep : ∀ (l : List (ℕ × ℚ)) (best : ℕ × ℚ),
        some (l.foldl (fun best next => if next.2 < best.2 then next else best) best) =
          l.foldl (List.argAux fun b c => b.2 < c.2) (some best) := by
      intro l
      induction l with
      | nil => intro best; rfl
      | cons next l ih =>
        intro best
        simp only [List.foldl_cons,List.argAux]
        rw [ih]
        split <;> rfl
    exact hstep rest first

lemma firstLeast_eq_none {l : List (ℕ × ℚ)} : firstLeast l = none ↔ l = [] := by
  rw [firstLeast_eq_argmin,List.argmin_eq_none]

lemma firstLeast_le {l : List (ℕ × ℚ)} {b e : ℕ × ℚ} (h : firstLeast l = some b) (he : e ∈ l) :
    b.2 ≤ e.2 :=
  List.le_of_mem_argmin he ((firstLeast_eq_argmin l).symm.trans h)

lemma mem_costs_pairs {r : Row ℚ} {j : ℕ} (hj : j < r.entries.length) :
    (j,r.entry j) ∈ r.entries.zipIdx.map Prod.swap := by
  refine List.mem_map.mpr ⟨(r.entry j,j),?_,rfl⟩
  rw [List.mk_mem_zipIdx_iff_getElem?,Row.entry,List.getD_eq_getElem?_getD,
    List.getElem?_eq_getElem hj]
  rfl

theorem entering?_eq_none {t : Tableau ℚ} (h : s.entering? t = none) {j : ℕ}
    (hj : j < t.costs.entries.length) : -s.tolerance ≤ t.costs.entry j := by
  have hmem := mem_costs_pairs hj
  cases hb : firstLeast (t.costs.entries.zipIdx.map Prod.swap) with
  | none => simp [firstLeast_eq_none.mp hb] at hmem
  | some b =>
    have hle := firstLeast_le hb hmem
    simp [entering?,hb] at h
    exact h.trans hle

theorem entering?_eq_some {t : Tableau ℚ} {c : ℕ} (h : s.entering? t = some c) :
    c < t.costs.entries.length ∧ t.costs.entry c < -s.tolerance ∧
      ∀ j < t.costs.entries.length, t.costs.entry c ≤ t.costs.entry j := by
  cases hb : firstLeast (t.costs.entries.zipIdx.map Prod.swap) with
  | none => simp [entering?,hb] at h
  | some b =>
    simp only [entering?,hb,Option.map_eq_some_iff,Option.filter_eq_some_iff] at h
    obtain ⟨b',⟨he,hlt⟩,rfl⟩ := h
    obtain rfl := Option.some.inj he
    obtain ⟨⟨a,j⟩,hmem,rfl⟩ := List.mem_map.mp (firstLeast_mem hb)
    obtain ⟨hj,ha⟩ := List.getElem?_eq_some_iff.mp (List.mk_mem_zipIdx_iff_getElem?.mp hmem)
    have hentry : t.costs.entry j = a := by
      rw [Row.entry,List.getD_eq_getElem?_getD,List.getElem?_eq_getElem hj,ha]
      rfl
    simp only [Prod.swap_prod_mk] at hlt ⊢
    rw [hentry]
    refine ⟨hj,by simpa using hlt,fun k hk => ?_⟩
    exact firstLeast_le hb (mem_costs_pairs hk)

theorem ratio?_eq_some {r : Row ℚ} {c : ℕ} {q : ℚ} : s.ratio? r c = some q ↔
    s.tolerance < |r.entry c| ∧ q = r.rhs / r.entry c ∧ (0 < q ∨ q = 0 ∧ 0 < r.entry c) := by
  simp only [ratio?,Scalar.magnitude_eq_abs]
  split
  case isTrue h => simp [not_lt.mpr h]
  case isFalse h =>
    have hlt := not_le.mp h
    split
    case isTrue hq =>
      simp only [Option.some.injEq]
      constructor
      · rintro rfl
        exact ⟨hlt,rfl,by simpa using hq⟩
      · rintro ⟨-,rfl,-⟩
        rfl
    case isFalse hq =>
      simp only [reduceCtorEq,false_iff]
      rintro ⟨-,rfl,hq'⟩
      exact hq (by simpa using hq')

lemma leaving?_eq_none {t : Tableau ℚ} {c : ℕ} (h : s.leaving? t c = none) {r : BasicRow ℚ}
    (hr : r ∈ t.rows) : s.ratio? r.toRow c = none := by
  rw [leaving?,Option.map_eq_none_iff,firstLeast_eq_none,List.filterMap_eq_nil_iff] at h
  obtain ⟨i,hi,rfl⟩ := List.getElem_of_mem hr
  have hmem : (t.rows[i],i) ∈ t.rows.zipIdx :=
    List.mk_mem_zipIdx_iff_getElem?.mpr (List.getElem?_eq_getElem hi)
  simpa using h _ hmem

lemma leaving?_eq_some {t : Tableau ℚ} {c i : ℕ} (h : s.leaving? t c = some i) :
    ∃ row q, t.rows[i]? = some row ∧ s.ratio? row.toRow c = some q ∧
      ∀ r ∈ t.rows, ∀ q', s.ratio? r.toRow c = some q' → q ≤ q' := by
  rw [leaving?,Option.map_eq_some_iff] at h
  obtain ⟨⟨i,q⟩,hb,rfl⟩ := h
  have hmem := firstLeast_mem hb
  simp only [List.mem_filterMap,Option.map_eq_some_iff] at hmem
  obtain ⟨⟨row,k⟩,hk,q',hq,he⟩ := hmem
  obtain ⟨rfl,rfl⟩ := Prod.mk.inj he
  refine ⟨row,q',List.mk_mem_zipIdx_iff_getElem?.mp hk,hq,fun r hr q hrq => ?_⟩
  obtain ⟨j,hj,rfl⟩ := List.getElem_of_mem hr
  refine firstLeast_le hb (e := (j,q)) (List.mem_filterMap.mpr ⟨(t.rows[j],j),?_,?_⟩)
  · exact List.mk_mem_zipIdx_iff_getElem?.mpr (List.getElem?_eq_getElem hj)
  · simp [hrq]

/-- What a chosen pivot satisfies: its column improves the objective, and its row is among those of
the least ratio. -/
structure Chosen (s : Solver ℚ) (t : Tableau ℚ) (p : Pivot) (row : BasicRow ℚ) : Prop
    extends t.Admits p row where
  improves : t.costs.entry p.column < -s.tolerance
  limits : s.ratio? row.toRow p.column = some (row.rhs / row.toRow.entry p.column)
  least : ∀ r ∈ t.rows, ∀ q, s.ratio? r.toRow p.column = some q →
    row.rhs / row.toRow.entry p.column ≤ q

/-- A tableau is optimal when no cost is below zero by more than the tolerance. -/
theorem costs_of_optimal {t : Tableau ℚ} (h : s.verdict t = .optimal) {j : ℕ}
    (hj : j < t.costs.entries.length) : -s.tolerance ≤ t.costs.entry j := by
  unfold verdict at h
  split at h
  case h_1 he => exact s.entering?_eq_none he hj
  case h_2 => split at h <;> contradiction

theorem column_of_unbounded {t : Tableau ℚ} {c : ℕ} (h : s.verdict t = .unbounded c) :
    c < t.costs.entries.length ∧ t.costs.entry c < -s.tolerance ∧
      ∀ r ∈ t.rows, s.ratio? r.toRow c = none := by
  unfold verdict at h
  split at h
  case h_1 => contradiction
  case h_2 c' he =>
    split at h
    case h_1 hl =>
      obtain rfl := Verdict.unbounded.inj h
      obtain ⟨hlt,hcost,-⟩ := s.entering?_eq_some he
      exact ⟨hlt,hcost,fun r hr => s.leaving?_eq_none hl hr⟩
    case h_2 => contradiction

section Tolerance
variable {s} (hs : 0 ≤ s.tolerance)
include hs

theorem chosen_of_verdict {t : Tableau ℚ} {p : Pivot} (ht : t.Rectangular)
    (h : s.verdict t = .pivot p) : ∃ row, s.Chosen t p row := by
  unfold verdict at h
  split at h
  case h_1 => contradiction
  case h_2 c he =>
    split at h
    case h_1 => contradiction
    case h_2 i hl =>
      obtain rfl := Verdict.pivot.inj h
      obtain ⟨hlt,hcost,-⟩ := s.entering?_eq_some he
      obtain ⟨row,q,hrow,hq,hleast⟩ := s.leaving?_eq_some hl
      obtain ⟨habs,rfl,-⟩ := s.ratio?_eq_some.mp hq
      have hne : row.toRow.entry c ≠ 0 := abs_pos.mp (hs.trans_lt habs)
      exact ⟨row,⟨hrow,ht.costs_length ▸ hlt,hne⟩,hcost,hq,hleast⟩

/-- A row with a nonnegative right-hand side limits a column exactly if its entry there is above
the tolerance. -/
theorem ratio?_of_nonneg {r : Row ℚ} (hr : 0 ≤ r.rhs) (c : ℕ) :
    s.ratio? r c = if s.tolerance < r.entry c then some (r.rhs / r.entry c) else none := by
  split
  case isTrue h =>
    have hpos := hs.trans_lt h
    rw [ratio?_eq_some]
    refine ⟨by rwa [abs_of_pos hpos],rfl,?_⟩
    rcases (div_nonneg hr hpos.le).lt_or_eq with hq | hq
    · exact .inl hq
    · exact .inr ⟨hq.symm,hpos⟩
  case isFalse h =>
    rw [Option.eq_none_iff_forall_ne_some]
    intro q hq
    obtain ⟨habs,rfl,hadm⟩ := s.ratio?_eq_some.mp hq
    rcases hadm with hpos | ⟨-,hpos⟩
    · by_cases he : 0 < r.entry c
      · exact h (by rwa [abs_of_pos he] at habs)
      · exact absurd (div_nonpos_of_nonneg_of_nonpos hr (not_lt.mp he)) (not_le.mpr hpos)
    · exact h (by rwa [abs_of_pos hpos] at habs)

end Tolerance

end Solver

end LinProg
