import LinProg.Proofs.Pivoting
import Mathlib.Data.Nat.Nth

/-!
Removal of the artificial columns. Values of the kept columns solve the smaller tableau exactly if
they solve the larger one with every artificial column at zero.
-/
namespace LinProg

namespace Tableau
variable (columns : Registry)

@[simp] lemma keptBefore_zero : keptBefore columns 0 = 0 := rfl

lemma keptBefore_succ (n : ℕ) : keptBefore columns (n+1) =
    keptBefore columns n + if columns.isArtificial n then 0 else 1 := by
  rw [keptBefore,List.range_succ,List.filter_append,List.length_append,keptBefore]
  congr 1
  cases h : columns.isArtificial n <;> simp [h]

lemma keptBefore_mono {m n : ℕ} (h : m ≤ n) : keptBefore columns m ≤ keptBefore columns n :=
  monotone_nat_of_le_succ (fun n => by rw [keptBefore_succ]; exact Nat.le_add_right _ _) h

variable {columns} in
/-- Different kept columns have different numbers. -/
lemma keptBefore_lt {c n : ℕ} (hc : columns.isArtificial c = false) (h : c < n) :
    keptBefore columns c < keptBefore columns n := by
  refine lt_of_lt_of_le ?_ (keptBefore_mono columns h)
  simp [keptBefore_succ,hc]

lemma keptBefore_eq_count (n : ℕ) :
    keptBefore columns n = Nat.count (fun c => columns.isArtificial c = false) n := by
  induction n with
  | zero => rfl
  | succ n ih =>
    rw [keptBefore_succ,Nat.count_succ,ih]
    cases h : columns.isArtificial n <;> simp

/-- Without artificial columns in front, a column keeps its number. -/
lemma keptBefore_eq_self {n : ℕ} (h : ∀ c < n, columns.isArtificial c = false) :
    keptBefore columns n = n := by
  induction n with
  | zero => rfl
  | succ n ih => simp [keptBefore_succ,ih fun c hc => h c (by omega),h n (by omega)]

variable {columns} in
/-- Every number in front of `keptBefore columns n` belongs to a kept column. -/
lemma exists_keptBefore {n k : ℕ} (h : k < keptBefore columns n) :
    ∃ c < n, columns.isArtificial c = false ∧ keptBefore columns c = k := by
  induction n with
  | zero => simp at h
  | succ n ih =>
    rcases lt_or_ge k (keptBefore columns n) with hlt | hge
    · obtain ⟨c,hc,hart,hk⟩ := ih hlt
      exact ⟨c,by omega,hart,hk⟩
    · rw [keptBefore_succ] at h
      split at h
      case isTrue => omega
      case isFalse hart => exact ⟨n,by omega,by simpa using hart,by omega⟩

lemma length_filter_take {n : ℕ} (hn : n ≤ columns.size) :
    ((columns.members.take n).filter fun v => !v.isArtificial).length = keptBefore columns n := by
  induction n with
  | zero => simp
  | succ n ih =>
    have hlt : n < columns.members.length := hn
    rw [keptBefore_succ,← ih (Nat.le_of_succ_le hn),List.take_add_one,List.filter_append,
      List.length_append,List.getElem?_eq_getElem hlt]
    congr 1
    simp only [Registry.isArtificial,Registry.at?,List.getElem?_eq_getElem hlt,Option.any_some]
    cases hv : columns.members[n].isArtificial <;> simp [hv]

lemma size_retain : (columns.retain fun v => !v.isArtificial).size =
    keptBefore columns columns.size := by
  have := length_filter_take columns le_rfl
  rwa [Registry.size,List.take_length] at this

variable {columns} in
/-- A kept column is found under its new number. -/
lemma at?_retain {c : ℕ} {v : Variable} (hv : columns.at? c = some v)
    (hnot : v.isArtificial = false) :
    (columns.retain fun v => !v.isArtificial).at? (keptBefore columns c) = some v := by
  obtain ⟨hlt,rfl⟩ := List.getElem?_eq_some_iff.mp hv
  have hsplit : columns.members.filter (fun v => !v.isArtificial) =
      (columns.members.take c).filter (fun v => !v.isArtificial) ++
        columns.members[c]::(columns.members.drop (c+1)).filter fun v => !v.isArtificial := by
    conv_lhs => rw [← List.take_append_drop c columns.members,List.drop_eq_getElem_cons hlt]
    rw [List.filter_append,List.filter_cons_of_pos (by simp [hnot])]
  rw [← length_filter_take columns (le_of_lt hlt),Registry.retain,Registry.at?,hsplit]
  simp

/-- The values of the kept columns in their old places, and zero in every artificial column. -/
def spread (x : ℕ → ℚ) (c : ℕ) : ℚ :=
  if columns.isArtificial c then 0 else x (keptBefore columns c)

/-- The values of the kept columns, one after the other. -/
noncomputable def gather (x : ℕ → ℚ) (k : ℕ) : ℚ :=
  x (Nat.nth (fun c => columns.isArtificial c = false) k)

/-- What is said of all columns of the smaller tableau is said of the kept columns. -/
lemma forall_retain_iff (x : ℕ → ℚ) (P : ℚ → Prop) :
    (∀ k < (columns.retain fun v => !v.isArtificial).size, P (x k)) ↔
      ∀ j < columns.size, columns.isArtificial j = false → P (spread columns x j) := by
  rw [size_retain]
  constructor
  · intro hall j hj hnot
    rw [spread,if_neg (by simpa using hnot)]
    exact hall _ (keptBefore_lt hnot hj)
  · intro hall k hk
    obtain ⟨c,hc,hnot,rfl⟩ := exists_keptBefore hk
    have := hall c hc hnot
    rwa [spread,if_neg (by simpa using hnot)] at this

lemma spread_gather {x : ℕ → ℚ} (h : ∀ c, columns.isArtificial c = true → x c = 0) :
    spread columns (gather columns x) = x := by
  funext c
  unfold spread gather
  split
  case isTrue hc => exact (h c hc).symm
  case isFalse hc =>
    rw [keptBefore_eq_count,Nat.nth_count (by simpa using hc)]

end Tableau

namespace Row
open Tableau
variable (columns : Registry)

def keep (r : Row ℚ) : Row ℚ := ⟨keptEntries columns r.entries,r.rhs⟩

lemma keptEntries_concat {K : Type} (l : List K) (a : K) : keptEntries columns (l ++ [a]) =
    keptEntries columns l ++ if columns.isArtificial l.length then [] else [a] := by
  simp only [keptEntries,List.zipIdx_append,List.filter_append,List.map_append]
  congr 1
  cases h : columns.isArtificial l.length <;> simp [h]

lemma length_keptEntries {K : Type} (l : List K) :
    (keptEntries columns l).length = keptBefore columns l.length := by
  induction l using List.reverseRecOn with
  | nil => rfl
  | append_singleton l a ih =>
    rw [keptEntries_concat,List.length_append,ih,List.length_append,List.length_singleton,
      keptBefore_succ]
    split <;> rfl

lemma getElem?_keptEntries {K : Type} {l : List K} {c : ℕ} (hc : columns.isArtificial c = false)
    (hl : c < l.length) : (keptEntries columns l)[keptBefore columns c]? = l[c]? := by
  induction l using List.reverseRecOn with
  | nil => simp at hl
  | append_singleton l a ih =>
    rw [keptEntries_concat]
    rw [List.length_append,List.length_singleton] at hl
    rcases Nat.lt_succ_iff_lt_or_eq.mp hl with hlt | rfl
    · rw [List.getElem?_append_left,ih hlt,List.getElem?_append_left hlt]
      rw [length_keptEntries]
      exact keptBefore_lt hc hlt
    · rw [← length_keptEntries]
      simp [hc]

lemma entry_keep {r : Row ℚ} {c : ℕ} (hc : columns.isArtificial c = false)
    (hr : c < r.entries.length) : (r.keep columns).entry (keptBefore columns c) = r.entry c := by
  simp only [entry,keep,List.getD_eq_getElem?_getD,getElem?_keptEntries columns hc hr]

lemma dot_concat (l : List ℚ) (a b : ℚ) (x : ℕ → ℚ) :
    Row.dot ⟨l ++ [a],b⟩ x = Row.dot ⟨l,b⟩ x + a * x l.length := by
  simp only [dot,List.length_append,List.length_singleton,Finset.sum_range_succ]
  congr 1
  · apply Finset.sum_congr rfl
    intro j hj
    rw [entry,entry,List.getD_append _ _ _ _ (Finset.mem_range.mp hj)]
  · simp [entry]

/-- Removing entries is setting the values of their columns to zero. -/
theorem dot_keep (r : Row ℚ) (x : ℕ → ℚ) : (r.keep columns).dot x = r.dot (spread columns x) := by
  obtain ⟨l,b⟩ := r
  simp only [keep]
  induction l using List.reverseRecOn with
  | nil => rfl
  | append_singleton l a ih =>
    rw [keptEntries_concat,dot_concat,← ih]
    cases h : columns.isArtificial l.length
    · rw [if_neg (by simp),dot_concat,length_keptEntries]
      simp [spread,h]
    · simp [spread,h]

lemma residual_keep (r : Row ℚ) (x : ℕ → ℚ) :
    (r.keep columns).residual x = r.residual (spread columns x) := by
  rw [residual,dot_keep]
  rfl

end Row

namespace Tableau

def kept (t : Tableau ℚ) : Tableau ℚ :=
  { t with
    columns := t.columns.retain fun v => !v.isArtificial
    costs := t.costs.keep t.columns
    rows := t.rows.map fun row =>
      { toRow := row.toRow.keep t.columns, basic := keptBefore t.columns row.basic } }

lemma basicArtificial?_eq_none {K : Type} {t : Tableau K} :
    t.basicArtificial? = none ↔ ∀ r ∈ t.rows, t.isArtificial r.basic = false := by
  simp only [basicArtificial?,Option.map_eq_none_iff,List.findSome?_eq_none_iff,isArtificial,
    Registry.isArtificial]
  apply forall₂_congr
  intro r _
  cases t.columns.at? r.basic <;> simp

theorem removeArtificials_eq_ok {t u : Tableau ℚ} : t.removeArtificials = .ok u ↔
    (∀ r ∈ t.rows, t.isArtificial r.basic = false) ∧ u = t.kept := by
  rw [← basicArtificial?_eq_none,removeArtificials]
  split
  case h_1 name h => simp [h]
  case h_2 h =>
    simp only [h,true_and,Except.ok.injEq]
    exact eq_comm

/-- The removal fails exactly if a row is solved for an artificial column. -/
theorem exists_removeArtificials_eq_error {t : Tableau ℚ} :
    (∃ name, t.removeArtificials = .error name) ↔ ∃ r ∈ t.rows, t.isArtificial r.basic = true := by
  have h := basicArtificial?_eq_none (t := t)
  rw [removeArtificials]
  split
  case h_1 name hn =>
    simp only [hn,reduceCtorEq,false_iff,not_forall] at h
    obtain ⟨r,hr,hb⟩ := h
    simp only [Except.error.injEq,exists_eq',true_iff]
    exact ⟨r,hr,by simpa using hb⟩
  case h_2 hn =>
    simp only [reduceCtorEq,exists_false,false_iff]
    rintro ⟨r,hr,hb⟩
    rw [h.mp hn r hr] at hb
    contradiction

theorem solves_kept (t : Tableau ℚ) (x : ℕ → ℚ) :
    t.kept.Solves x ↔ t.Solves (spread t.columns x) := by
  simp only [Solves,kept,List.forall_mem_map,Row.Holds,Row.dot_keep]
  rfl

theorem score_kept (t : Tableau ℚ) (x : ℕ → ℚ) : t.kept.score x = t.score (spread t.columns x) :=
  Row.residual_keep _ _ _

theorem Nonneg.kept {t : Tableau ℚ} (ht : t.Nonneg) : t.kept.Nonneg := by
  rw [Nonneg,Tableau.kept,List.forall_mem_map]
  exact ht

/-- Removing the artificial columns keeps the canonical form when none of them is basic. -/
theorem Canonical.kept {t : Tableau ℚ} (ht : t.Canonical)
    (hb : ∀ r ∈ t.rows, t.isArtificial r.basic = false) : t.kept.Canonical where
  costs_length := by
    change (keptEntries t.columns t.costs.entries).length = _
    rw [Row.length_keptEntries,ht.costs_length]
    exact (size_retain t.columns).symm
  row_length := by
    rw [Tableau.kept,List.forall_mem_map]
    intro r hr
    change (keptEntries t.columns r.entries).length = _
    rw [Row.length_keptEntries,ht.row_length r hr]
    exact (size_retain t.columns).symm
  basic_lt := by
    rw [Tableau.kept,List.forall_mem_map]
    intro r hr
    dsimp only
    rw [size_retain]
    exact keptBefore_lt (hb r hr) (ht.basic_lt r hr)
  unit := by
    intro i k hi hk
    simp only [Tableau.kept,List.length_map,List.getElem_map] at hi hk ⊢
    have hk' := List.getElem_mem hk
    rw [Row.entry_keep t.columns (hb _ hk'),ht.unit i k hi hk]
    rw [ht.row_length _ (List.getElem_mem hi)]
    exact ht.basic_lt _ hk'
  priced := by
    rw [Tableau.kept,List.forall_mem_map]
    intro r hr
    dsimp only
    rw [Row.entry_keep t.columns (hb r hr),ht.priced r hr]
    rw [ht.costs_length]
    exact ht.basic_lt r hr

end Tableau

end LinProg
