import LinProg.Proofs.Canonical
import LinProg.Proofs.Feasible
import LinProg.Proofs.Layout

/-!
The first tableau as a system of equations. With the artificial columns at zero, the rows say that
every added column holds the margin of its constraint, so the nonnegative solutions are the feasible
points of the program.
-/
namespace LinProg
open scoped BigOperators

namespace Tableau

section Placed
variable {m : ℕ} {cs : List (Constraint ℚ)} {e : Constraint ℚ × ℕ}

lemma map_fst_placed (m : ℕ) (cs : List (Constraint ℚ)) : (placed m cs).map Prod.fst = cs := by
  induction cs generalizing m with
  | nil => rfl
  | cons c cs ih => rw [placed,List.map_cons,ih]

lemma exists_mem_placed {c : Constraint ℚ} (hc : c ∈ cs) : ∃ k, (c,k) ∈ placed m cs := by
  rw [← map_fst_placed m cs] at hc
  obtain ⟨⟨c,k⟩,he,rfl⟩ := List.mem_map.mp hc
  exact ⟨k,he⟩

lemma mem_of_mem_placed (he : e ∈ placed m cs) : e.1 ∈ cs := by
  rw [← map_fst_placed m cs]
  exact List.mem_map_of_mem he

/-- The columns of a constraint lie between the first added one and the last. -/
lemma placed_bounds (he : e ∈ placed m cs) :
    m ≤ e.2 ∧ e.2+e.1.addedKinds.length ≤ m+(kindsOf cs).length := by
  induction cs generalizing m with
  | nil => simp [placed] at he
  | cons c cs ih =>
    simp only [kindsOf,List.flatMap_cons,List.length_append]
    rcases List.mem_cons.mp he with rfl | he
    · exact ⟨le_rfl,by simp⟩
    · obtain ⟨h₁,h₂⟩ := ih he
      simp only [kindsOf] at h₂
      omega

/-- The columns of different constraints are different. -/
lemma placed_pairwise (m : ℕ) (cs : List (Constraint ℚ)) :
    (placed m cs).Pairwise fun a b => a.2+a.1.addedKinds.length ≤ b.2 := by
  induction cs generalizing m with
  | nil => exact .nil
  | cons c cs ih => exact List.pairwise_cons.mpr ⟨fun e he => (placed_bounds he).1,ih _⟩

/-- Every added column is one of a constraint. -/
lemma exists_placed {j : ℕ} (hm : m ≤ j) (hj : j < m+(kindsOf cs).length) :
    ∃ e ∈ placed m cs, ∃ k < e.1.addedKinds.length, j = e.2+k := by
  induction cs generalizing m with
  | nil => simp [kindsOf] at hj; omega
  | cons c cs ih =>
    by_cases hc : j < m+c.addedKinds.length
    · exact ⟨(c,m),by simp [placed],j-m,by simp only; omega,by simp only; omega⟩
    · simp only [kindsOf,List.flatMap_cons,List.length_append] at hj
      obtain ⟨e,he,k,hk,rfl⟩ := ih (m := m+c.addedKinds.length) (by omega)
        (by simp only [kindsOf]; omega)
      exact ⟨e,List.mem_cons_of_mem _ he,k,hk,rfl⟩

/-- A list that holds a block for each constraint has it where the columns of the constraint are. -/
lemma getElem?_blocks {α : Type} {F : Constraint ℚ → List α}
    (hF : ∀ c, (F c).length = c.addedKinds.length) (front : List α)
    (he : e ∈ placed front.length cs) {k : ℕ} (hk : k < e.1.addedKinds.length) :
    (front ++ cs.flatMap F)[e.2+k]? = (F e.1)[k]? := by
  induction cs generalizing front with
  | nil => simp [placed] at he
  | cons c cs ih =>
    rw [List.flatMap_cons,← List.append_assoc]
    rcases List.mem_cons.mp he with rfl | he
    · rw [List.getElem?_append_left (by simp [hF]; omega),
        List.getElem?_append_right (by simp)]
      simp
    · refine ih (front ++ F c) ?_
      rwa [List.length_append,hF]

end Placed

/-- What the added columns of a row contribute to its left-hand side. -/
def unitsValue (x : ℕ → ℚ) (m : ℕ) : Relation → ℚ
  | .atMost => x m
  | .atLeast => -x m + x (m+1)
  | .equal => x m

/-- A look-up of each column finds each unit once. -/
lemma sum_lookup {units : List (ℕ × ℚ)} {n added : ℕ} (x : ℕ → ℚ)
    (hn : (units.map Prod.fst).Nodup) (hb : ∀ u ∈ units, n ≤ u.1 ∧ u.1 < n+added) :
    (∑ j ∈ Finset.range added, (units.lookup (n+j)).getD 0 * x (n+j)) =
      (units.map fun u => u.2 * x u.1).sum := by
  induction units with
  | nil => simp
  | cons u units ih =>
    obtain ⟨key,a⟩ := u
    obtain ⟨hu,hn⟩ := List.nodup_cons.mp hn
    obtain ⟨hlo,hhi⟩ := hb (key,a) (by simp)
    simp only at hlo hhi
    have hnone : units.lookup key = none := by
      rw [List.lookup_eq_none_iff]
      intro v hv
      rw [bne_iff_ne]
      rintro rfl
      exact hu (List.mem_map.mpr ⟨v,hv,rfl⟩)
    have hkey : ∑ j ∈ Finset.range added, (if n+j = key then a * x (n+j) else 0) = a * x key := by
      have hmem : key-n ∈ Finset.range added := Finset.mem_range.mpr (by omega)
      rw [Finset.sum_eq_single_of_mem (key-n) hmem]
      · rw [if_pos (by omega),show n+(key-n) = key by omega]
      · intro j _ hne
        exact if_neg (by omega)
    rw [List.map_cons,List.sum_cons,← ih hn fun v hv => hb v (List.mem_cons_of_mem _ hv),← hkey,
      ← Finset.sum_add_distrib]
    apply Finset.sum_congr rfl
    intro j _
    by_cases hj : n+j = key
    · simp [hj,hnone]
    · simp [List.lookup_cons,beq_false_of_ne hj,hj]

lemma sum_supplementAt {r : Relation} {m n added : ℕ} (x : ℕ → ℚ) (hlo : n ≤ m)
    (hhi : m+r.addedKinds.length ≤ n+added) :
    (∑ j ∈ Finset.range added, ((supplementAt m r).units.lookup (n+j)).getD 0 * x (n+j)) =
      unitsValue x m r := by
  rw [sum_lookup]
  · cases r <;> simp [supplementAt,unitsValue]
  · cases r <;> simp [supplementAt]
  · cases r <;> simp [supplementAt,Relation.addedKinds] at hhi ⊢ <;> omega

section RowOf
variable {own : Registry} {added : ℕ} {e : Constraint ℚ × ℕ}

lemma entry_rowOf_own {j : ℕ} (hj : j < own.size) : (rowOf own.members added e).toRow.entry j =
    e.1.rowSign * e.1.equation.coefficientAt own j := by
  have hj' : j < own.members.length := hj
  simp [Row.entry,rowOf,List.getD_eq_getElem?_getD,List.getElem?_append,hj',
    Equation.coefficientAt,Registry.at?]

lemma entry_rowOf_added {j : ℕ} (hj : j < added) :
    (rowOf own.members added e).toRow.entry (own.size+j) =
      ((supplementAt e.2 e.1.rowRelation).units.lookup (own.size+j)).getD 0 := by
  simp [Row.entry,rowOf,List.getD_eq_getElem?_getD,Registry.size,hj]

lemma length_rowOf : (rowOf own.members added e).entries.length = own.size+added := by
  simp [rowOf,Registry.size]

/-- The row of a constraint says how far the constraint is from its bound. -/
theorem residual_rowOf (ho : own.Ordered) (x : ℕ → ℚ) (hlo : own.size ≤ e.2)
    (hhi : e.2+e.1.addedKinds.length ≤ own.size+added) :
    (rowOf own.members added e).toRow.residual x =
      e.1.rowSign * (e.1.bound-e.1.equation.evaluate (own.point x)) -
        unitsValue x e.2 e.1.rowRelation := by
  have hfront : ∑ j ∈ Finset.range own.size, (rowOf own.members added e).toRow.entry j * x j =
      e.1.rowSign * e.1.equation.evaluate (own.point x) := by
    rw [Equation.evaluate_point ho,Finset.mul_sum]
    apply Finset.sum_congr rfl
    intro j hj
    rw [entry_rowOf_own (Finset.mem_range.mp hj),mul_assoc]
  have hback : ∑ j ∈ Finset.range added,
      (rowOf own.members added e).toRow.entry (own.size+j) * x (own.size+j) =
        unitsValue x e.2 e.1.rowRelation := by
    rw [← sum_supplementAt x hlo hhi]
    apply Finset.sum_congr rfl
    intro j hj
    rw [entry_rowOf_added (Finset.mem_range.mp hj)]
  rw [Row.residual,Row.dot,length_rowOf,Finset.sum_range_add,hfront,hback,rowOf]
  ring

end RowOf

end Tableau

namespace Constraint
variable (c : Constraint ℚ)

lemma rowRelation_eq_equal : c.rowRelation = .equal ↔ c.relation = .equal := by
  unfold rowRelation
  split
  · rfl
  · cases c.relation <;> simp [Relation.flip]

lemma length_addedKinds_pos : 0 < c.addedKinds.length := by
  unfold addedKinds
  cases c.rowRelation <;> simp [Relation.addedKinds]

/-- The first added column of an inequality is a slack or a surplus, all other added columns are
artificial. -/
lemma getElem?_addedKinds_ne {k : ℕ} (hk : k < c.addedKinds.length) :
    c.addedKinds[k]? ≠ some .artificial ↔ k = 0 ∧ c.relation ≠ .equal := by
  rw [ne_eq,ne_eq,← rowRelation_eq_equal]
  unfold addedKinds at hk ⊢
  cases h : c.rowRelation with
  | atMost =>
    rw [h,Relation.addedKinds,List.length_singleton] at hk
    obtain rfl : k = 0 := by omega
    simp [Relation.addedKinds]
  | atLeast =>
    rw [h,Relation.addedKinds,List.length_cons,List.length_singleton] at hk
    obtain rfl | rfl : k = 0 ∨ k = 1 := by omega
    all_goals simp [Relation.addedKinds]
  | equal =>
    rw [h,Relation.addedKinds,List.length_singleton] at hk
    obtain rfl : k = 0 := by omega
    simp [Relation.addedKinds]

/-- With the artificial columns at zero, a row holds if its slack or surplus is the margin. The
sign of the row and the turned relation cancel. -/
lemma row_iff_margin {x y : ℕ → ℚ} {m : ℕ}
    (hx : ∀ k, c.addedKinds[k]? = some .artificial → x (m+k) = 0) :
    c.rowSign * (c.bound-c.equation.evaluate y) - Tableau.unitsValue x m c.rowRelation = 0 ↔
      c.margin y = if c.relation = .equal then 0 else x m := by
  unfold addedKinds at hx
  rcases lt_or_ge c.bound 0 with hb | hb
  · simp only [rowSign,rowRelation,margin,if_pos hb,if_neg (not_le.mpr hb)] at hx ⊢
    cases hr : c.relation with
    | atMost =>
      have h1 : x (m+1) = 0 := hx 1 (by simp [hr,Relation.flip,Relation.addedKinds])
      simp only [Relation.flip,Tableau.unitsValue,h1,reduceCtorEq,if_false]
      constructor <;> intro h <;> linarith
    | atLeast =>
      simp only [Relation.flip,Tableau.unitsValue,reduceCtorEq,if_false]
      constructor <;> intro h <;> linarith
    | equal =>
      have h0 : x m = 0 := hx 0 (by simp [hr,Relation.flip,Relation.addedKinds])
      simp only [Relation.flip,Tableau.unitsValue,h0,if_true]
      constructor <;> intro h <;> linarith
  · simp only [rowSign,rowRelation,margin,if_neg (not_lt.mpr hb),if_pos hb] at hx ⊢
    cases hr : c.relation with
    | atMost =>
      simp only [Tableau.unitsValue,reduceCtorEq,if_false]
      constructor <;> intro h <;> linarith
    | atLeast =>
      have h1 : x (m+1) = 0 := hx 1 (by simp [hr,Relation.addedKinds])
      simp only [Tableau.unitsValue,h1,reduceCtorEq,if_false]
      constructor <;> intro h <;> linarith
    | equal =>
      have h0 : x m = 0 := hx 0 (by simp [hr,Relation.addedKinds])
      simp only [Tableau.unitsValue,h0,if_true]
      constructor <;> intro h <;> linarith

end Constraint

lemma Program.Covered.own_eq {p : Program ℚ} (hp : p.Covered) : p.own = p.registry := by
  rw [Program.own,List.filter_eq_self.mpr hp.objective]

lemma Program.Covered.own_ordered {p : Program ℚ} (hp : p.Covered) : p.own.Ordered := by
  rw [hp.own_eq]
  exact hp.ordered

lemma Program.getElem_own_mem {p : Program ℚ} {j : ℕ} (hj : j < p.own.members.length) :
    p.own.members[j] ∈ p.registry.members :=
  List.mem_of_mem_filter (List.getElem_mem hj)

lemma Tableau.isArtificial_lt {t : Tableau ℚ} {j : ℕ} (h : t.isArtificial j = true) :
    j < t.columns.size := by
  by_contra hge
  rw [isArtificial,Registry.isArtificial,Registry.at?,
    List.getElem?_eq_none (not_lt.mp hge)] at h
  contradiction

namespace Tableau.StandardForm
variable {p : Program ℚ} {t : Tableau ℚ} (h : StandardForm p t)
include h

lemma kinds : t.columns.members.map Variable.kind =
    p.own.members.map Variable.kind ++ kindsOf p.constraints := by
  obtain ⟨vs,hm,hk⟩ := h.members
  rw [hm,List.map_append,hk]

lemma size_columns : t.columns.size = p.own.size+(kindsOf p.constraints).length := by
  have := congrArg List.length h.kinds
  simpa [Registry.size] using this

lemma isArtificial_iff {j : ℕ} : t.isArtificial j = true ↔
    (p.own.members.map Variable.kind ++ kindsOf p.constraints)[j]? = some .artificial := by
  rw [← h.kinds,List.getElem?_map,isArtificial,Registry.isArtificial,Registry.at?]
  cases t.columns.members[j]? <;> simp [Variable.isArtificial]

lemma isArtificial_added {e : Constraint ℚ × ℕ} (he : e ∈ placed p.own.size p.constraints) {k : ℕ}
    (hk : k < e.1.addedKinds.length) :
    t.isArtificial (e.2+k) = true ↔ e.1.addedKinds[k]? = some .artificial := by
  rw [h.isArtificial_iff,kindsOf,getElem?_blocks (fun _ => rfl) _ (by simpa [Registry.size]) hk]

variable (hp : p.Covered)
include hp

lemma isArtificial_own {j : ℕ} (hj : j < p.own.size) : t.isArtificial j = false := by
  rw [Bool.eq_false_iff,ne_eq,h.isArtificial_iff]
  have hj' : j < p.own.members.length := hj
  have hd := hp.decisions _ (Program.getElem_own_mem hj')
  rw [List.getElem?_append_left (by simpa),List.getElem?_map,List.getElem?_eq_getElem hj',
    Option.map_some,hd]
  simp

end Tableau.StandardForm

end LinProg
