import LinProg.Proofs.StandardForm

/-!
Solutions of the first tableau with the artificial columns at zero are the points that satisfy every
equation of the program. Their other columns hold the values of the variables and the margins of the
inequalities, in this order.
-/
namespace LinProg

def Constraint.addedValues (c : Constraint ℚ) (y : ℕ → ℚ) : List ℚ :=
  c.addedKinds.map fun kind => if kind = .artificial then 0 else c.margin y

namespace Tableau

/-- The values that a point gives to all columns of the first tableau. -/
def columnsAt (p : Program ℚ) (y : ℕ → ℚ) (j : ℕ) : ℚ :=
  ((p.own.members.map fun v => y v.index) ++
    p.constraints.flatMap fun c => c.addedValues y).getD j 0

section ColumnsAt
variable {p : Program ℚ} (y : ℕ → ℚ)

lemma columnsAt_own {j : ℕ} (hj : j < p.own.size) : columnsAt p y j = p.own.valuesAt y j := by
  have hj' : j < p.own.members.length := hj
  simp [columnsAt,List.getD_eq_getElem?_getD,List.getElem?_append_left,hj',Registry.valuesAt,
    Registry.at?]

lemma columnsAt_added {e : Constraint ℚ × ℕ} (he : e ∈ placed p.own.size p.constraints) {k : ℕ}
    (hk : k < e.1.addedKinds.length) : columnsAt p y (e.2+k) =
      if e.1.addedKinds[k]? = some .artificial then 0 else e.1.margin y := by
  have hlen : ∀ c : Constraint ℚ, (c.addedValues y).length = c.addedKinds.length := fun c => by
    simp [Constraint.addedValues]
  rw [columnsAt,List.getD_eq_getElem?_getD,
    getElem?_blocks hlen _ (by simpa [Registry.size] using he) hk]
  simp [Constraint.addedValues,hk]

lemma point_columnsAt (hy : ∀ i, p.own.position? i = none → y i = 0) :
    p.own.point (columnsAt p y) = y := by
  conv_rhs => rw [← Registry.point_valuesAt hy]
  exact Registry.point_congr fun j hj => columnsAt_own y hj

end ColumnsAt

namespace StandardForm
variable {p : Program ℚ} {t : Tableau ℚ} (h : StandardForm p t) (hp : p.Covered)
include h hp

/-- A row of the first tableau, when the artificial columns are zero. -/
lemma holds_rowOf {e : Constraint ℚ × ℕ} (he : e ∈ placed p.own.size p.constraints) {x : ℕ → ℚ}
    (hx : ∀ j, t.isArtificial j = true → x j = 0) :
    (rowOf p.own.members (t.columns.size-p.own.size) e).toRow.Holds x ↔
      e.1.margin (p.own.point x) = if e.1.relation = .equal then 0 else x e.2 := by
  obtain ⟨hlo,hhi⟩ := placed_bounds he
  have hsize := h.size_columns
  rw [Row.holds_iff_residual,residual_rowOf hp.own_ordered x hlo (by omega)]
  refine e.1.row_iff_margin fun k hk => hx _ ?_
  exact (h.isArtificial_added he (List.getElem?_eq_some_iff.mp hk).1).mpr hk

/-- Each column added for an inequality holds its margin, and equations hold. -/
theorem solves_iff {x : ℕ → ℚ} (hx : ∀ j, t.isArtificial j = true → x j = 0) :
    t.Solves x ↔ ∀ e ∈ placed p.own.size p.constraints,
      e.1.margin (p.own.point x) = if e.1.relation = .equal then 0 else x e.2 := by
  rw [Solves,h.rows,List.forall_mem_map]
  exact forall₂_congr fun e he => h.holds_rowOf hp he hx

/-- What is said of all columns that are not artificial is said of all variables and of the margins
of all inequalities. -/
theorem forall_columns_iff {x : ℕ → ℚ} (hx : ∀ j, t.isArtificial j = true → x j = 0)
    (hs : t.Solves x) (P : ℚ → Prop) :
    (∀ j < t.columns.size, t.isArtificial j = false → P (x j)) ↔
      (∀ j < p.own.size, P (x j)) ∧
      ∀ c ∈ p.constraints, c.relation ≠ .equal → P (c.margin (p.own.point x)) := by
  have hsize := h.size_columns
  rw [h.solves_iff hp hx] at hs
  constructor
  · intro hall
    refine ⟨fun j hj => hall j (by omega) (h.isArtificial_own hp hj),fun c hc hne => ?_⟩
    obtain ⟨m,he⟩ := exists_mem_placed (m := p.own.size) hc
    obtain ⟨hlo,hhi⟩ := placed_bounds he
    have hpos := c.length_addedKinds_pos
    have hart := h.isArtificial_added he hpos
    rw [hs _ he,if_neg hne]
    refine hall m (by simp only at hhi; omega) ?_
    rw [Bool.eq_false_iff]
    exact fun ha => (c.getElem?_addedKinds_ne hpos).mpr ⟨rfl,hne⟩ (hart.mp ha)
  · rintro ⟨hown,hmargin⟩ j hj hart
    rcases lt_or_ge j p.own.size with hlt | hge
    · exact hown j hlt
    · obtain ⟨e,he,k,hk,rfl⟩ := exists_placed hge (hsize ▸ hj)
      rw [Bool.eq_false_iff,ne_eq,h.isArtificial_added he hk] at hart
      obtain ⟨rfl,hne⟩ := (e.1.getElem?_addedKinds_ne hk).mp hart
      have := hmargin e.1 (mem_of_mem_placed he) hne
      rwa [hs e he,if_neg hne] at this

lemma equations_of_solves {x : ℕ → ℚ} (hx : ∀ j, t.isArtificial j = true → x j = 0)
    (hs : t.Solves x) {c : Constraint ℚ} (hc : c ∈ p.constraints) (heq : c.relation = .equal) :
    c.margin (p.own.point x) = 0 := by
  obtain ⟨m,he⟩ := exists_mem_placed (m := p.own.size) hc
  have := (h.solves_iff hp hx).mp hs _ he
  rwa [if_pos heq] at this

/-- The columns of a point that satisfies the equations of the program. -/
theorem columnsAt_spec {y : ℕ → ℚ} (hy : ∀ i, p.own.position? i = none → y i = 0)
    (heq : ∀ c ∈ p.constraints, c.relation = .equal → c.margin y = 0) :
    (∀ j, t.isArtificial j = true → columnsAt p y j = 0) ∧ t.Solves (columnsAt p y) := by
  have hart : ∀ j, t.isArtificial j = true → columnsAt p y j = 0 := by
    intro j hj
    have hsome := h.isArtificial_iff.mp hj
    have hlt : j < p.own.size+(kindsOf p.constraints).length := by
      have := (List.getElem?_eq_some_iff.mp hsome).1
      simpa [Registry.size] using this
    rcases lt_or_ge j p.own.size with hown | hge
    · rw [h.isArtificial_own hp hown] at hj
      contradiction
    · obtain ⟨e,he,k,hk,rfl⟩ := exists_placed hge hlt
      rw [columnsAt_added y he hk,if_pos ((h.isArtificial_added he hk).mp hj)]
  refine ⟨hart,(h.solves_iff hp hart).mpr fun e he => ?_⟩
  rw [point_columnsAt y hy]
  split
  case isTrue hr => exact heq e.1 (mem_of_mem_placed he) hr
  case isFalse hr =>
    have hpos := e.1.length_addedKinds_pos
    have := columnsAt_added y he hpos
    rw [if_neg ((e.1.getElem?_addedKinds_ne hpos).mpr ⟨rfl,hr⟩)] at this
    exact this.symm

/-- A feasible point is a nonnegative solution without artificial columns. -/
theorem columnsAt_feasible {y : ℕ → ℚ} (hy : p.Feasible y) :
    (∀ j, t.isArtificial j = true → columnsAt p y j = 0) ∧ t.Solves (columnsAt p y) ∧
      ∀ j < t.columns.size, 0 ≤ columnsAt p y j := by
  have hmargin := fun c hc => Constraint.holds_iff_margin.mp (hy.holds c hc)
  have hzero : ∀ i, p.own.position? i = none → y i = 0 := by
    rw [hp.own_eq]
    exact hy.zero
  obtain ⟨hart,hx⟩ := h.columnsAt_spec hp hzero fun c hc => (hmargin c hc).2
  refine ⟨hart,hx,fun j hj => ?_⟩
  cases hkind : t.isArtificial j with
  | true => exact (hart j hkind).ge
  | false =>
    refine (h.forall_columns_iff hp hart hx fun a => 0 ≤ a).mpr ⟨fun i hi => ?_,?_⟩ j hj hkind
    · have hi' : i < p.own.members.length := hi
      rw [columnsAt_own y hi,Registry.valuesAt,Registry.at?,List.getElem?_eq_getElem hi']
      exact hy.nonneg _ (Program.getElem_own_mem hi')
    · rw [point_columnsAt y hzero]
      exact fun c hc _ => (hmargin c hc).1

/-- Nonnegative solutions without artificial columns are feasible points. -/
theorem feasible_of_solves {x : ℕ → ℚ} (hx : ∀ j, t.isArtificial j = true → x j = 0)
    (hs : t.Solves x) (hx0 : ∀ j < t.columns.size, 0 ≤ x j) : p.Feasible (p.registry.point x) := by
  have hall := (h.forall_columns_iff hp hx hs fun a => 0 ≤ a).mp fun j hj _ => hx0 j hj
  have heq := fun c hc => h.equations_of_solves hp hx hs (c := c) hc
  rw [hp.own_eq] at hall heq
  exact Program.feasible_point hall.1 hall.2 heq

/-- The feasible points are the nonnegative solutions of the first tableau with the artificial
columns at zero. -/
theorem feasible_iff {y : ℕ → ℚ} : p.Feasible y ↔ ∃ x, p.registry.point x = y ∧ t.Solves x ∧
    (∀ j, t.isArtificial j = true → x j = 0) ∧ ∀ j < t.columns.size, 0 ≤ x j := by
  constructor
  · intro hy
    obtain ⟨hart,hx,hx0⟩ := h.columnsAt_feasible hp hy
    refine ⟨columnsAt p y,?_,hx,hart,hx0⟩
    have hzero := hy.zero
    rw [← hp.own_eq] at hzero ⊢
    exact point_columnsAt y hzero
  · rintro ⟨x,rfl,hx,hart,hx0⟩
    exact h.feasible_of_solves hp hart hx hx0

end StandardForm

end Tableau

end LinProg
