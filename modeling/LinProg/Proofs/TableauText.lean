import LinProg.Proofs.AlignedGrid
import LinProg.Proofs.Columns
import LinProg.Proofs.Digits
import LinProg.Report

/-!
Tableaux as text, for any arithmetic. Whatever numbers a tableau of a solve holds and whatever its
variables are called, short of line breaks, its text is a grid: the heading, the costs and the rows
have a cell for each column, and these are aligned.
-/
namespace LinProg

namespace Decimal

lemma mem_of_mem_trimEnd {c d : Char} {cs : List Char} (h : c ∈ trimEnd d cs) : c ∈ cs := by
  obtain ⟨z,hz⟩ := exists_trimEnd d cs
  rw [hz]
  exact List.mem_append_left _ h

lemma mem_of_mem_trimFraction {c : Char} {text : List Char} (h : c ∈ trimFraction text) :
    c ∈ text := by
  unfold trimFraction at h
  split at h
  case isTrue => exact mem_of_mem_trimEnd (mem_of_mem_trimEnd h)
  case isFalse => exact h

lemma newline_not_mem_fixedDigits (places num den : ℕ) : '\n' ∉ fixedDigits places num den := by
  intro h
  have hpoint : '\n' ≠ '.' := by decide
  unfold fixedDigits Numeral.text at h
  split at h
  case isTrue => exact absurd (isDigit_of_mem_wholeDigits _ _ h) (by decide)
  case isFalse =>
    rcases List.mem_append.mp h with h | h
    · exact absurd (isDigit_of_mem_wholeDigits _ _ h) (by decide)
    · rcases List.mem_cons.mp h with h | h
      · exact hpoint h
      · exact absurd (isDigit_of_mem_fractionDigits _ _ h) (by decide)

lemma newline_not_mem_fixed (places : ℕ) (e : Exact) : '\n' ∉ fixed places e := by
  have hnames : '\n' ∉ ['N','a','N'] ∧ '\n' ∉ ['-','i','n','f'] ∧ '\n' ∉ ['i','n','f'] := by decide
  cases e with
  | notANumber => exact hnames.1
  | infinite negative =>
    cases negative with
    | false => exact hnames.2.2
    | true => exact hnames.2.1
  | fraction negative num den =>
    have := newline_not_mem_fixedDigits places num den
    cases negative with
    | false => exact this
    | true => exact fun h => (List.mem_cons.mp h).elim (by decide) this

end Decimal

lemma newline_not_mem_toString (n : ℕ) : '\n' ∉ (toString n).toList := by
  intro h
  rw [Nat.toString_eq_ofList_toDigits,String.toList_ofList] at h
  exact absurd (Decimal.isDigit_of_mem_toDigits h) (by decide)

lemma Variable.IsFiller.newline_not_mem_label {v : Variable} (h : v.IsFiller) :
    '\n' ∉ v.label.toList := by
  obtain ⟨k,hname⟩ := h.name_eq
  rw [label,h.alias_eq_none,Option.getD_none,hname,Kind.nameAt,String.toList_append]
  intro hmem
  rcases List.mem_append.mp hmem with hmem | hmem
  · have hstem : ∀ kind : Kind, '\n' ∉ kind.stem.toList := fun kind => by cases kind <;> decide
    exact hstem _ hmem
  · exact newline_not_mem_toString _ hmem

lemma Tableau.Framed.finish {K : Type} [Scalar K] {t : Tableau K} (ht : t.Framed) :
    t.finish.Framed := by
  unfold Tableau.finish
  split
  · exact ⟨ht.costs_length,ht.row_length,ht.basic_lt⟩
  · exact ht

namespace Solver
variable {K : Type} [Scalar K] {s : Solver K} {p : Program K} {u : Tableau K}

/-- The tableaux that a program is solved through: the first one, all those of the solve, and the
one that comes with the solution. -/
inductive Shows (s : Solver K) (p : Program K) : Tableau K → Prop
  | built {t : Tableau K} (h : Tableau.build p = .ok t) : s.Shows p t
  | passed {t : Tableau K} {e : Snapshot K} (h : Tableau.build p = .ok t) (he : e ∈ s.history t) :
    s.Shows p e.tableau
  | solved {sol : Solution K} (h : s.solve p = .ok sol) : s.Shows p sol.tableau

/-- All of them have a frame. -/
theorem Shows.framed (h : s.Shows p u) : u.Framed := by
  cases h with
  | built hb => exact Tableau.framed_of_build hb
  | passed hb he => exact (s.inRange_history (Tableau.framed_of_build hb) _ he).toFramed
  | solved hs =>
    obtain ⟨t,hb,e,he,hsol⟩ := exists_finish_of_solve hs
    rw [hsol]
    exact (s.inRange_history (Tableau.framed_of_build hb) e he).toFramed.finish

/-- Their columns are those of the first tableau, or some of them. -/
theorem Shows.exists_subset (h : s.Shows p u) : ∃ t, Tableau.build p = .ok t ∧
    u.columns.members ⊆ t.columns.members := by
  cases h with
  | built hb => exact ⟨_,hb,List.Subset.refl _⟩
  | passed hb he => exact ⟨_,hb,(s.keepsColumns_history _ _ he).subset⟩
  | solved hs =>
    obtain ⟨t,hb,e,he,hsol⟩ := exists_finish_of_solve hs
    refine ⟨t,hb,?_⟩
    rw [hsol]
    exact (Tableau.columns_finish e.tableau).symm ▸ (s.keepsColumns_history t e he).subset

/-- The added columns have no line breaks in their names, so there are none anywhere if the program
has none. -/
lemma Shows.newline_not_mem_label (h : s.Shows p u)
    (hp : ∀ v ∈ p.registry.members, '\n' ∉ v.label.toList) :
    ∀ v ∈ u.columns.members, '\n' ∉ v.label.toList := by
  obtain ⟨t,hb,hsubset⟩ := h.exists_subset
  obtain ⟨own,added,hmembers,hown,hadded⟩ := Tableau.columns_of_build hb
  intro v hv
  rcases List.mem_append.mp (hmembers ▸ hsubset hv) with hv | hv
  · exact hp v (hown.subset hv)
  · exact (hadded v hv).newline_not_mem_label

end Solver

namespace Report
variable {K : Type} [Scalar K] (r : Report) {u : Tableau K}

lemma newline_not_mem_number (x : K) : '\n' ∉ (r.number x).toList := by
  rw [number,String.toList_ofList]
  exact fun h => Decimal.newline_not_mem_fixed _ _ (Decimal.mem_of_mem_trimFraction h)

/-- What stands in the lines of a tableau, counted from zero. A row is shown with the label of its
basic variable and its number. -/
inductive Shows (r : Report) (u : Tableau K) : ℕ → List String → Prop
  | heading :
    r.Shows u 0 ("BV"::"EQ"::u.goal.label::u.columns.members.map Variable.label ++ ["RHS"])
  | costs : r.Shows u 1 (u.goal.label::"0"::"1"::u.costs.toList.map r.number)
  | row {i : ℕ} {row : BasicRow K} {v : Variable} (hrow : u.rows[i]? = some row)
    (hbasic : u.columns.at? row.basic = some v) :
    r.Shows u (i+2) (v.label::toString (i+1)::"0"::row.toRow.toList.map r.number)

lemma shows_of_framed (hu : u.Framed) {i : ℕ} {cells : List String}
    (h : (r.tableauCells u)[i]? = some cells) : r.Shows u i cells := by
  match i with
  | 0 =>
    obtain rfl := Option.some.inj h
    exact .heading
  | 1 =>
    obtain rfl := Option.some.inj h
    exact .costs
  | i+2 =>
    change (u.rows.mapIdx fun i row => r.rowCells u (i+1) row)[i]? = some cells at h
    rw [List.getElem?_mapIdx] at h
    obtain ⟨row,hrow,rfl⟩ := Option.map_eq_some_iff.mp h
    have hlt := hu.basic_lt row (List.mem_of_getElem? hrow)
    have hbasic : u.columns.at? row.basic = some u.columns.members[row.basic] :=
      List.getElem?_eq_getElem hlt
    rw [rowCells,hbasic]
    exact .row hrow hbasic

variable {r} in
lemma Shows.length_eq (hu : u.Framed) {i : ℕ} {cells : List String} (h : r.Shows u i cells) :
    cells.length = u.columns.size+4 := by
  cases h with
  | heading => simp [Registry.size]
  | costs => simp [hu.costs_length]
  | row hrow hbasic => simp [hu.row_length _ (List.mem_of_getElem? hrow)]

variable {r} in
lemma Shows.newline_not_mem (hu : ∀ v ∈ u.columns.members, '\n' ∉ v.label.toList) {i : ℕ}
    {cells : List String} (h : r.Shows u i cells) : ∀ cell ∈ cells, '\n' ∉ cell.toList := by
  have hgoal : '\n' ∉ u.goal.label.toList := by cases u.goal <;> decide
  have hnumbers (row : Row K) : ∀ cell ∈ row.toList.map r.number, '\n' ∉ cell.toList :=
    List.forall_mem_map.mpr fun x _ => r.newline_not_mem_number x
  cases h with
  | heading =>
    have hlabels : ∀ cell ∈ u.columns.members.map Variable.label, '\n' ∉ cell.toList :=
      List.forall_mem_map.mpr hu
    simp only [List.cons_append,List.forall_mem_cons,List.forall_mem_append]
    exact ⟨by decide,by decide,hgoal,hlabels,by decide,nofun⟩
  | costs =>
    simp only [List.forall_mem_cons]
    exact ⟨hgoal,by decide,by decide,hnumbers u.costs⟩
  | @row i row v hrow hbasic =>
    simp only [List.forall_mem_cons]
    exact ⟨hu v (List.mem_of_getElem? hbasic),newline_not_mem_toString _,by decide,
      hnumbers row.toRow⟩

/-- The text of a tableau is an aligned grid: a heading, the costs and the rows, and in each line a
cell for every column, which ends where those of the other lines do. -/
theorem tableau_aligned {s : Solver K} {p : Program K} (hu : s.Shows p u)
    (hp : ∀ v ∈ p.registry.members, '\n' ∉ v.label.toList) (r : Report) :
    ((r.tableau u).toList.splitOn '\n').length = u.rows.length+2 ∧
    ∃ widths : List ℕ, widths.length = u.columns.size+4 ∧
      ∀ i line, ((r.tableau u).toList.splitOn '\n')[i]? = some line →
        ∃ cells, r.Shows u i cells ∧ Text.Aligned widths cells line := by
  have hmem {cells : List String} (h : cells ∈ r.tableauCells u) : ∃ i, r.Shows u i cells := by
    obtain ⟨i,hi⟩ := List.mem_iff_getElem?.mp h
    exact ⟨i,r.shows_of_framed hu.framed hi⟩
  have hlength : ∀ cells ∈ r.tableauCells u, cells.length = u.columns.size+3+1 := by
    intro cells hcells
    obtain ⟨i,hi⟩ := hmem hcells
    exact hi.length_eq hu.framed
  have hbreak : ∀ cells ∈ r.tableauCells u, ∀ cell ∈ cells, '\n' ∉ cell.toList := by
    intro cells hcells
    obtain ⟨i,hi⟩ := hmem hcells
    exact hi.newline_not_mem (hu.newline_not_mem_label hp)
  have hne : r.tableauCells u ≠ [] := List.cons_ne_nil _ _
  obtain ⟨widths,hwidths,haligned⟩ := Text.aligned_grid hne hlength hbreak
  refine ⟨haligned.length_eq.symm.trans (by simp [tableauCells]),widths,hwidths,
    fun i line hline => ?_⟩
  obtain ⟨hi,rfl⟩ := List.getElem?_eq_some_iff.mp hline
  have hcells := List.getElem?_eq_getElem (haligned.length_eq.symm ▸ hi)
  exact ⟨_,r.shows_of_framed hu.framed hcells,haligned.get _ hi⟩

/-- Maximizes `X1 + 2X2` where `X1 + X2 <= 4`; the alias of `X1` takes more bytes than characters,
and that of `X2` is empty. -/
def labelledProgram : Program ℚ where
  registry := ((Registry.numbered "X" 2).setAlias 1 "größe").setAlias 2 ""
  objective := ⟨.ofList [(1,1),(2,2)],.maximize⟩
  constraints := [⟨.ofList [(1,1),(2,1)],.atMost,4⟩]

theorem tableau_aligned_labelled : ∃ sol, ({} : Solver ℚ).solve labelledProgram = .ok sol ∧
    (({} : Report).tableau sol.tableau).toList.splitOn '\n' = [
      "BV  EQ  Z    größe     S1  RHS".toList,
      " Z   0  1        1  0   2    8".toList,
      "     1  0        1  1   1    4".toList] ∧
    ∃ widths : List ℕ, widths.length = 7 ∧ ∃ cells, ({} : Report).Shows sol.tableau 2 cells ∧
      Text.Aligned widths cells "     1  0        1  1   1    4".toList := by
  have hlines : (({} : Solver ℚ).solve labelledProgram).toOption.map
      (fun sol => (sol.tableau.columns.size,
        (({} : Report).tableau sol.tableau).toList.splitOn '\n')) = some (3,[
          "BV  EQ  Z    größe     S1  RHS".toList,
          " Z   0  1        1  0   2    8".toList,
          "     1  0        1  1   1    4".toList]) := by decide +kernel
  obtain ⟨sol,hsol,hpair⟩ := Option.map_eq_some_iff.mp hlines
  obtain ⟨hsize,hlines⟩ := Prod.mk.inj hpair
  have hs := Except.toOption_eq_some.mp hsol
  obtain ⟨-,widths,hwidths,hline⟩ := tableau_aligned (.solved hs) (by decide +kernel) {}
  rw [hsize] at hwidths
  exact ⟨sol,hs,hlines,widths,hwidths,hline 2 _ (by rw [hlines]; rfl)⟩

end Report

end LinProg
