import LinProg.Text
import Mathlib.Tactic

/-!
Grids of text are aligned. The width of a column counts bytes and its cells are filled up by
characters, which are never more, so no cell is cut and a cell ends where its column does, in every
line.
-/
namespace LinProg.Text

/-- The position behind a column: the widths up to it, and two blanks between neighbours. -/
def rightEdge (widths : List ℕ) (column : ℕ) : ℕ := (widths.take (column+1)).sum+2*column

/-- The cell ends at `edge` and has nothing but blanks in front of it in its column of the given
width; another column follows after two blanks. -/
structure EndsAt (line : List Char) (edge width : ℕ) (cell : String) (last : Bool) : Prop where
  fits : cell.length ≤ width
  place : ∃ front back, line =
    front ++ (List.replicate (width-cell.length) ' ' ++ cell.toList) ++ back ∧
      front.length+width = edge ∧ if last then back = [] else [' ',' '] <+: back

structure Aligned (widths : List ℕ) (cells : List String) (line : List Char) : Prop where
  length_cells : cells.length = widths.length
  length_line : line.length = rightEdge widths (widths.length-1)
  endsAt : ∀ j width cell, widths[j]? = some width → cells[j]? = some cell →
    EndsAt line (rightEdge widths j) width cell (j+1 == widths.length)

section Line
variable {widths : List ℕ} {cells : List String}

lemma rightEdge_cons_succ (w : ℕ) (widths : List ℕ) (j : ℕ) :
    rightEdge (w::widths) (j+1) = w+2+rightEdge widths j := by
  simp only [rightEdge,List.take_succ_cons,List.sum_cons]
  omega

lemma toList_padLeft (width : ℕ) (cell : String) : (padLeft width cell).toList =
    List.replicate (width-cell.length) ' ' ++ cell.toList := by
  simp [padLeft]

/-- A first column is put in front of the others. -/
lemma Aligned.cons {w : ℕ} {c : String} {line : List Char} (hfits : c.length ≤ w)
    (hne : widths ≠ []) (h : Aligned widths cells line) :
    Aligned (w::widths) (c::cells) ((padLeft w c).toList ++ [' ',' '] ++ line) := by
  have hwidth : (padLeft w c).toList.length = w := by
    rw [String.length_toList,length_padLeft,max_eq_left hfits]
  obtain ⟨n,hn⟩ := Nat.exists_eq_succ_of_ne_zero (List.length_pos_iff.mpr hne).ne'
  refine ⟨congrArg (·+1) h.length_cells,?_,fun j width cell hw hc => ?_⟩
  · have hlast : (w::widths).length-1 = widths.length-1+1 := by rw [List.length_cons,hn]; rfl
    rw [hlast,rightEdge_cons_succ,← h.length_line,List.length_append,List.length_append,hwidth]
    rfl
  cases j with
  | zero =>
    obtain rfl := Option.some.inj hw
    obtain rfl := Option.some.inj hc
    refine ⟨hfits,[],[' ',' '] ++ line,?_,by simp [rightEdge],?_⟩
    · rw [toList_padLeft,List.append_assoc]
      rfl
    · simp [hn]
  | succ j =>
    obtain ⟨hfits',front,back,hline,hedge,hback⟩ := h.endsAt j width cell hw hc
    refine ⟨hfits',(padLeft w c).toList ++ [' ',' '] ++ front,back,?_,?_,?_⟩
    · rw [hline]
      simp only [List.append_assoc]
    · rw [rightEdge_cons_succ,← hedge,List.length_append,List.length_append,hwidth]
      simp only [List.length_cons,List.length_nil]
      omega
    · simpa using hback

lemma aligned_singleton {w : ℕ} {c : String} (hfits : c.length ≤ w) :
    Aligned [w] [c] (padLeft w c).toList := by
  have hwidth : (padLeft w c).toList.length = w := by
    rw [String.length_toList,length_padLeft,max_eq_left hfits]
  refine ⟨rfl,by simp [hwidth,rightEdge],fun j width cell hw hc => ?_⟩
  cases j with
  | zero =>
    obtain rfl := Option.some.inj hw
    obtain rfl := Option.some.inj hc
    exact ⟨hfits,[],[],by simp [toList_padLeft],by simp [rightEdge],by simp⟩
  | succ j => contradiction

/-- A line is aligned if the columns are wide enough for its cells. -/
theorem aligned_gridLine (h : List.Forall₂ (fun width cell => String.length cell ≤ width)
    widths cells) (hne : widths ≠ []) : Aligned widths cells (gridLine widths cells).toList := by
  induction h with
  | nil => contradiction
  | @cons w c widths cells hfirst hrest ih =>
    cases hrest with
    | nil =>
      have hline : (gridLine [w] [c]).toList = (padLeft w c).toList := by simp [gridLine]
      rw [hline]
      exact aligned_singleton hfirst
    | @cons w' c' widths cells =>
      have hline : (gridLine (w::w'::widths) (c::c'::cells)).toList = (padLeft w c).toList ++
          [' ',' '] ++ (gridLine (w'::widths) (c'::cells)).toList := by
        simp [gridLine]
      rw [hline]
      exact (ih (List.cons_ne_nil _ _)).cons hfirst (List.cons_ne_nil _ _)

end Line

section Widths
variable {lines : List (List String)} {n : ℕ}

lemma le_foldl_max {l : List ℕ} {a b : ℕ} (h : a ≤ b ∨ a ∈ l) : a ≤ l.foldl max b := by
  induction l generalizing b with
  | nil => simpa using h
  | cons c l ih =>
    refine ih ?_
    rcases h with h | h
    · exact .inl (h.trans (le_max_left ..))
    · rcases List.mem_cons.mp h with rfl | h
      · exact .inl (le_max_right ..)
      · exact .inr h

/-- Every character takes a byte at least. -/
lemma length_le_utf8ByteSize (s : String) : s.length ≤ s.utf8ByteSize := by
  have hsize (cs : List Char) : cs.length ≤ size cs := by
    induction cs with
    | nil => exact le_rfl
    | cons c cs ih =>
      have := c.utf8Size_pos
      rw [List.length_cons,size_cons]
      omega
  rw [← String.length_toList,← size_toList]
  exact hsize s.toList

lemma length_columnWidths (hne : lines ≠ []) (hlength : ∀ cells ∈ lines, cells.length = n) :
    (columnWidths lines).length = n := by
  obtain ⟨first,rest,rfl⟩ := List.exists_cons_of_ne_nil hne
  rw [columnWidths,List.length_map,List.length_range,List.headD_cons]
  exact hlength first (List.mem_cons_self ..)

/-- Columns are no narrower than their cells. -/
lemma forall₂_columnWidths (hlength : ∀ cells ∈ lines, cells.length = n) {cells : List String}
    (hcells : cells ∈ lines) : List.Forall₂ (fun width cell => String.length cell ≤ width)
      (columnWidths lines) cells := by
  have hwidths := length_columnWidths (List.ne_nil_of_mem hcells) hlength
  refine List.forall₂_iff_get.mpr ⟨hwidths.trans (hlength cells hcells).symm,fun j hj hj' => ?_⟩
  rw [List.get_eq_getElem,List.get_eq_getElem]
  simp only [columnWidths,List.getElem_map,List.getElem_range]
  refine (length_le_utf8ByteSize cells[j]).trans (le_foldl_max (.inr ?_))
  exact List.mem_map.mpr ⟨cells,hcells,by rw [List.getElem?_eq_getElem hj']; rfl⟩

end Widths

section Grid
variable {lines : List (List String)} {n : ℕ}

lemma mem_intercalate {sep : String} {texts : List String} {c : Char}
    (h : c ∈ (sep.intercalate texts).toList) : c ∈ sep.toList ∨ ∃ text ∈ texts, c ∈ text.toList := by
  induction texts with
  | nil => simp at h
  | cons text texts ih =>
    cases texts with
    | nil => exact .inr ⟨text,by simp,by simpa using h⟩
    | cons next texts =>
      rw [String.intercalate_cons_cons,String.toList_append,String.toList_append] at h
      rcases List.mem_append.mp h with h | h
      · exact (List.mem_append.mp h).elim (fun h => .inr ⟨text,by simp,h⟩) .inl
      · exact (ih h).imp_right fun ⟨text',hmem,hc⟩ => ⟨text',List.mem_cons_of_mem text hmem,hc⟩

/-- Blanks are no line breaks. -/
lemma newline_not_mem_gridLine {widths : List ℕ} {cells : List String}
    (h : ∀ cell ∈ cells, '\n' ∉ cell.toList) : '\n' ∉ (gridLine widths cells).toList := by
  intro hmem
  rcases mem_intercalate hmem with hsep | ⟨text,htext,hmem⟩
  · exact absurd hsep (by decide)
  obtain ⟨j,hj,rfl⟩ := List.getElem_of_mem htext
  rw [List.getElem_zipWith,toList_padLeft] at hmem
  rcases List.mem_append.mp hmem with hblank | hcell
  · exact absurd (List.eq_of_mem_replicate hblank) (by decide)
  · exact h _ (List.getElem_mem _) hcell

/-- The lines of a grid are those it is made of, and their cells stand in the same columns. -/
theorem aligned_grid (hne : lines ≠ []) (hlength : ∀ cells ∈ lines, cells.length = n+1)
    (hbreak : ∀ cells ∈ lines, ∀ cell ∈ cells, '\n' ∉ cell.toList) :
    ∃ widths : List ℕ, widths.length = n+1 ∧
      List.Forall₂ (Aligned widths) lines ((grid lines).toList.splitOn '\n') := by
  have hwidths := length_columnWidths hne hlength
  have hsplit : (grid lines).toList.splitOn '\n' =
      lines.map fun cells => (gridLine (columnWidths lines) cells).toList := by
    rw [grid,String.toList_intercalate,List.map_map]
    refine List.splitOn_intercalate '\n' ?_ (by simpa using hne)
    rw [List.forall_mem_map]
    exact fun cells hcells => newline_not_mem_gridLine (hbreak cells hcells)
  refine ⟨columnWidths lines,hwidths,?_⟩
  rw [hsplit,List.forall₂_map_right_iff,List.forall₂_same]
  exact fun cells hcells => aligned_gridLine (forall₂_columnWidths hlength hcells)
    (List.ne_nil_of_length_eq_add_one hwidths)

end Grid

end LinProg.Text
