import LinProg.Proofs.RatioTest

/-!
The textbook rule for pivots. The column that enters is the first of the least costs, and on a
tableau without negative right-hand sides the row that leaves is the first of the least ratios among
the rows with an entry above the tolerance: the test on the sign of a ratio then comes down to that.
-/
namespace LinProg

/-- The first of the positions with a property at which `f` is least among them. -/
structure IsFirstLeast (P : ℕ → Prop) (f : ℕ → ℚ) (i : ℕ) : Prop where
  mem : P i
  le : ∀ j, P j → f i ≤ f j
  lt : ∀ j < i, P j → f i < f j

lemma IsFirstLeast.unique {P : ℕ → Prop} {f : ℕ → ℚ} {i j : ℕ} (hi : IsFirstLeast P f i)
    (hj : IsFirstLeast P f j) : i = j := by
  rcases lt_trichotomy i j with hlt | rfl | hlt
  · exact absurd (hj.lt i hlt hi.mem) (not_lt.mpr (hi.le j hj.mem))
  · rfl
  · exact absurd (hi.lt j hlt hj.mem) (not_lt.mpr (hj.le i hi.mem))

namespace Solver

/-- In front of the pair that a scan keeps all numbers are greater, and none behind it is less. -/
lemma exists_split_of_firstLeast {l : List (ℕ × ℚ)} {b : ℕ × ℚ} (h : firstLeast l = some b) :
    ∃ front back, l = front ++ b::back ∧ (∀ e ∈ front, b.2 < e.2) ∧ ∀ e ∈ back, b.2 ≤ e.2 := by
  rw [firstLeast_eq_argmin] at h
  induction l using List.reverseRecOn generalizing b with
  | nil => contradiction
  | append_singleton l a ih =>
    rw [List.argmin_concat] at h
    cases hl : l.argmin Prod.snd with
    | none =>
      rw [hl] at h
      obtain rfl := Option.some.inj h
      exact ⟨[],[],by rw [List.argmin_eq_none.mp hl],nofun,nofun⟩
    | some c =>
      rw [hl] at h
      obtain ⟨front,back,rfl,hfront,hback⟩ := ih hl
      dsimp only at h
      split at h
      case isTrue hlt =>
        obtain rfl := Option.some.inj h
        refine ⟨front ++ c::back,[],rfl,fun e he => ?_,nofun⟩
        rcases List.mem_append.mp he with he | he
        · exact hlt.trans (hfront e he)
        · rcases List.mem_cons.mp he with rfl | he
          · exact hlt
          · exact hlt.trans_le (hback e he)
      case isFalse hle =>
        obtain rfl := Option.some.inj h
        refine ⟨front,back ++ [a],by simp,hfront,fun e he => ?_⟩
        rcases List.mem_append.mp he with he | he
        · exact hback e he
        · rw [List.mem_singleton.mp he]
          exact not_lt.mp hle

structure Scans (l : List (ℕ × ℚ)) (P : ℕ → Prop) (f : ℕ → ℚ) : Prop where
  sorted : l.Pairwise fun a b => a.1 < b.1
  mem_iff : ∀ i q, (i,q) ∈ l ↔ P i ∧ q = f i

namespace Scans
variable {l : List (ℕ × ℚ)} {P : ℕ → Prop} {f : ℕ → ℚ} (h : Scans l P f)
include h

/-- What the scan keeps is the first of the least numbers. -/
lemma isFirstLeast_of_eq_some {b : ℕ × ℚ} (hb : firstLeast l = some b) :
    IsFirstLeast P f b.1 ∧ b.2 = f b.1 := by
  obtain ⟨front,back,rfl,hfront,-⟩ := exists_split_of_firstLeast hb
  obtain ⟨hP,hf⟩ := (h.mem_iff b.1 b.2).mp (by simp)
  refine ⟨⟨hP,fun j hj => ?_,fun j hj hPj => ?_⟩,hf⟩
  · rw [← hf]
    exact firstLeast_le hb ((h.mem_iff j (f j)).mpr ⟨hj,rfl⟩)
  · rw [← hf]
    obtain ⟨-,hbehind,-⟩ := List.pairwise_append.mp h.sorted
    rcases List.mem_append.mp ((h.mem_iff j (f j)).mpr ⟨hPj,rfl⟩) with hmem | hmem
    · exact hfront _ hmem
    · rcases List.mem_cons.mp hmem with rfl | hmem
      · exact absurd hj (lt_irrefl _)
      · exact absurd hj (List.rel_of_pairwise_cons hbehind hmem).not_gt

lemma firstLeast_eq_none : firstLeast l = none ↔ ∀ i, ¬ P i := by
  rw [Solver.firstLeast_eq_none]
  constructor
  · rintro rfl i hi
    exact List.not_mem_nil ((h.mem_iff i (f i)).mpr ⟨hi,rfl⟩)
  · intro hnone
    refine List.eq_nil_iff_forall_not_mem.mpr fun e he => ?_
    exact hnone e.1 ((h.mem_iff e.1 e.2).mp he).1

lemma firstLeast_eq_some {i : ℕ} :
    firstLeast l = some (i,f i) ↔ IsFirstLeast P f i := by
  constructor
  · intro hsome
    exact (h.isFirstLeast_of_eq_some hsome).1
  · intro hi
    cases hb : firstLeast l with
    | none => exact absurd hi.mem (h.firstLeast_eq_none.mp hb i)
    | some b =>
      obtain ⟨hfirst,hf⟩ := h.isFirstLeast_of_eq_some hb
      rw [hi.unique hfirst,← hf]

lemma map_fst_firstLeast {i : ℕ} :
    (firstLeast l).map Prod.fst = some i ↔ IsFirstLeast P f i := by
  rw [← h.firstLeast_eq_some,Option.map_eq_some_iff]
  constructor
  · rintro ⟨b,hb,rfl⟩
    rw [hb,← (h.isFirstLeast_of_eq_some hb).2]
  · exact fun hb => ⟨_,hb,rfl⟩

end Scans

variable (s : Solver ℚ) (t : Tableau ℚ) (c : ℕ)

lemma pairwise_zipIdx {α : Type} (l : List α) : l.zipIdx.Pairwise fun a b => a.2 < b.2 := by
  refine List.pairwise_iff_getElem.mpr fun i j hi hj hij => ?_
  simpa using hij

lemma scans_costs : Scans (t.costs.entries.zipIdx.map Prod.swap) (· < t.rhsColumn)
    t.costs.entry where
  sorted := List.pairwise_map.mpr (pairwise_zipIdx _)
  mem_iff j a := by
    constructor
    · intro hmem
      obtain ⟨e,he,hswap⟩ := List.mem_map.mp hmem
      obtain rfl : e = (a,j) := Prod.swap_injective hswap
      obtain ⟨hj,rfl⟩ := List.getElem?_eq_some_iff.mp (List.mk_mem_zipIdx_iff_getElem?.mp he)
      exact ⟨hj,by simp [Row.entry,hj]⟩
    · rintro ⟨hj,rfl⟩
      exact mem_costs_pairs hj

/-- The entry of a row in the column is above the tolerance, so that the row limits the column. -/
def Limits (i : ℕ) : Prop := ∃ row, t.rows[i]? = some row ∧ s.tolerance < row.toRow.entry c

end Solver

def Tableau.ratioAt (t : Tableau ℚ) (c i : ℕ) : ℚ :=
  (t.rows[i]?.map fun row => row.rhs / row.toRow.entry c).getD 0

namespace Solver
variable {s : Solver ℚ} {t : Tableau ℚ}

lemma scans_ratios (hs : 0 ≤ s.tolerance) (ht : t.Nonneg) (c : ℕ) :
    Scans (t.rows.zipIdx.filterMap fun row =>
      (s.ratio? row.1.toRow c).map fun ratio => (row.2,ratio)) (s.Limits t c) (t.ratioAt c) where
  sorted := by
    refine List.pairwise_filterMap.mpr ((pairwise_zipIdx t.rows).imp ?_)
    intro a b hab x hx y hy
    obtain ⟨_,-,rfl⟩ := Option.map_eq_some_iff.mp hx
    obtain ⟨_,-,rfl⟩ := Option.map_eq_some_iff.mp hy
    exact hab
  mem_iff i q := by
    simp only [List.mem_filterMap,Option.map_eq_some_iff]
    constructor
    · rintro ⟨⟨row,k⟩,hmem,q',hq,he⟩
      obtain ⟨rfl,rfl⟩ := Prod.mk.inj he
      have hrow := List.mk_mem_zipIdx_iff_getElem?.mp hmem
      rw [ratio?_of_nonneg hs (ht row (List.mem_of_getElem? hrow))] at hq
      split at hq
      case isTrue hlt => exact ⟨⟨row,hrow,hlt⟩,by simpa [Tableau.ratioAt,hrow] using hq.symm⟩
      case isFalse => contradiction
    · rintro ⟨⟨row,hrow,hlt⟩,rfl⟩
      refine ⟨(row,i),List.mk_mem_zipIdx_iff_getElem?.mpr hrow,_,?_,rfl⟩
      rw [ratio?_of_nonneg hs (ht row (List.mem_of_getElem? hrow)),if_pos hlt]
      simp [Tableau.ratioAt,hrow]

/-- The first of the least costs enters if it is below zero by more than the tolerance. -/
lemma entering?_eq_some_iff (s : Solver ℚ) (t : Tableau ℚ) (c : ℕ) : s.entering? t = some c ↔
    IsFirstLeast (· < t.rhsColumn) t.costs.entry c ∧ t.costs.entry c < -s.tolerance := by
  have hscan := scans_costs t
  rw [← hscan.firstLeast_eq_some,entering?,Option.map_eq_some_iff]
  constructor
  · rintro ⟨b,hb,rfl⟩
    obtain ⟨hb,hlt⟩ := Option.filter_eq_some_iff.mp hb
    have hf := (hscan.isFirstLeast_of_eq_some hb).2
    rw [← hf]
    exact ⟨hb,by simpa using hlt⟩
  · rintro ⟨hb,hlt⟩
    exact ⟨_,Option.filter_eq_some_iff.mpr ⟨hb,by simpa using hlt⟩,rfl⟩

lemma entering?_eq_none_iff (s : Solver ℚ) (t : Tableau ℚ) :
    s.entering? t = none ↔ ∀ j < t.rhsColumn, -s.tolerance ≤ t.costs.entry j := by
  constructor
  · exact fun h j hj => s.entering?_eq_none h hj
  · intro hall
    rw [Option.eq_none_iff_forall_ne_some]
    intro c hc
    obtain ⟨hfirst,hlt⟩ := (s.entering?_eq_some_iff t c).mp hc
    exact absurd hlt (not_lt.mpr (hall c hfirst.mem))

/-- The column that enters is the first that attains the least cost, if that is below zero by more
than the tolerance, and there is none otherwise. Where no right-hand side is negative, the row that
leaves is the first that attains the least ratio among the rows with an entry above the tolerance,
and there is none only if there are no such rows; so no pivot divides by zero or by a negative
number. -/
theorem textbook_rule (hs : 0 ≤ s.tolerance) (t : Tableau ℚ) :
    (∀ c, s.entering? t = some c ↔
      IsFirstLeast (· < t.rhsColumn) t.costs.entry c ∧ t.costs.entry c < -s.tolerance) ∧
    (s.entering? t = none ↔ ∀ j < t.rhsColumn, -s.tolerance ≤ t.costs.entry j) ∧
    (t.Nonneg → ∀ c,
      (∀ i, s.leaving? t c = some i ↔ IsFirstLeast (s.Limits t c) (t.ratioAt c) i) ∧
      (s.leaving? t c = none ↔ ∀ i, ¬ s.Limits t c i) ∧
      ∀ i, s.leaving? t c = some i →
        ∃ row, t.rows[i]? = some row ∧ 0 < row.toRow.entry c) := by
  refine ⟨s.entering?_eq_some_iff t,s.entering?_eq_none_iff t,fun ht c => ?_⟩
  have hscan := scans_ratios hs ht c
  refine ⟨fun i => hscan.map_fst_firstLeast,?_,fun i hi => ?_⟩
  · rw [leaving?,Option.map_eq_none_iff]
    exact hscan.firstLeast_eq_none
  · obtain ⟨row,hrow,hlt⟩ := (hscan.map_fst_firstLeast.mp hi).mem
    exact ⟨row,hrow,hs.trans_lt hlt⟩

/-- Costs with a tie, and rows with a negative entry, a small one, and two equal ratios. -/
def tiedTableau : Tableau ℚ where
  columns := .numbered "X" 3
  costs := ⟨[-2,-3,-3],0⟩
  rows := [⟨⟨[0,-1,1],0⟩,0⟩,⟨⟨[0,1/20,1],0⟩,0⟩,⟨⟨[1,2,0],4⟩,0⟩,⟨⟨[0,1,1],2⟩,2⟩]
  phase := .single
  minimizes := false
  objective := .ofList []
  goal := .objective

theorem textbook_rule_tied : ({tolerance := 1/10} : Solver ℚ).entering? tiedTableau = some 1 ∧
    ({tolerance := 1/10} : Solver ℚ).leaving? tiedTableau 1 = some 2 ∧
    IsFirstLeast (({tolerance := 1/10} : Solver ℚ).Limits tiedTableau 1)
      (tiedTableau.ratioAt 1) 2 := by
  have hnonneg : tiedTableau.Nonneg := by simp [Tableau.Nonneg,tiedTableau]
  have hleaving : ({tolerance := 1/10} : Solver ℚ).leaving? tiedTableau 1 = some 2 := by
    decide +kernel
  obtain ⟨-,-,hrule⟩ := textbook_rule (s := {tolerance := 1/10}) (by norm_num) tiedTableau
  exact ⟨by decide +kernel,hleaving,((hrule hnonneg 1).1 2).mp hleaving⟩

end Solver

end LinProg
