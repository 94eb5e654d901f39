import LinProg.Proofs.FirstTableau
import LinProg.Proofs.Removal

/-!
Tableaux of the second phase. Such a tableau represents the program: its solutions are the points
that satisfy the equations, with the margins of the inequalities in the added columns, and its costs
say what the objective is worth.
-/
namespace LinProg

namespace Tableau

/-- The tableau says of its solutions what the program says of its points. -/
structure Represents (t : Tableau ℚ) (p : Program ℚ) : Prop where
  canonical : t.Canonical
  members : ∃ vs : List Variable, t.columns.members = p.registry.members ++ vs ∧
    ∀ v ∈ vs, v.kind.isAdded = true
  minimizes : t.minimizes = !p.objective.isMaximize
  score : ∀ x, t.Solves x → t.score x = p.objective.maximized.evaluate (p.registry.point x)
  columns_iff : ∀ x, t.Solves x → ∀ P : ℚ → Prop, (∀ j < t.columns.size, P (x j)) ↔
    (∀ j < p.registry.size, P (x j)) ∧
    ∀ c ∈ p.constraints, c.relation ≠ .equal → P (c.margin (p.registry.point x))
  equations : ∀ x, t.Solves x →
    ∀ c ∈ p.constraints, c.relation = .equal → c.margin (p.registry.point x) = 0
  exists_solution : ∀ y : ℕ → ℚ, (∀ i, p.registry.position? i = none → y i = 0) →
    (∀ c ∈ p.constraints, c.relation = .equal → c.margin y = 0) →
    ∃ x, t.Solves x ∧ p.registry.point x = y

/-- Another form of the tableau represents the same program. -/
theorem Represents.of_equivalent {p : Program ℚ} {t u : Tableau ℚ} (h : t.Represents p)
    (hu : u.Canonical) (he : t.Equivalent u) : u.Represents p where
  canonical := hu
  members := by rw [he.columns]; exact h.members
  minimizes := he.minimizes.trans h.minimizes
  score x hx := by
    have ht := (he.solves x).mp hx
    rw [he.score x ht,h.score x ht]
  columns_iff x hx := by
    rw [he.columns]
    exact h.columns_iff x ((he.solves x).mp hx)
  equations x hx := h.equations x ((he.solves x).mp hx)
  exists_solution y hy heq := by
    obtain ⟨x,hx,hxy⟩ := h.exists_solution y hy heq
    exact ⟨x,(he.solves x).mpr hx,hxy⟩

namespace StandardForm
variable {p : Program ℚ} {t : Tableau ℚ} (h : StandardForm p t) (hp : p.Covered)
include h hp

/-- A program without artificial columns is represented from the start. -/
theorem represents_of_single (hs : t.phase = .single) : t.Represents p where
  canonical := h.canonical
  members := by
    obtain ⟨vs,hm,hk⟩ := h.members
    refine ⟨vs,by rw [hm,hp.own_eq],fun v hv => ?_⟩
    have hmem : v.kind ∈ kindsOf p.constraints := hk ▸ List.mem_map_of_mem hv
    exact isAdded_of_mem_kindsOf hmem
  minimizes := h.minimizes
  score x _ := by rw [← hp.own_eq]; exact h.score_of_single hs hp x
  columns_iff x hx P := by
    have hart := h.not_isArtificial_of_single hs hp
    have := h.forall_columns_iff hp (fun j hj => by simp [hart] at hj) hx P
    rw [hp.own_eq] at this
    rw [← this]
    exact forall₂_congr fun j _ => by simp [hart]
  equations x hx c hc heq := by
    have hart := h.not_isArtificial_of_single hs hp
    rw [← hp.own_eq]
    exact h.equations_of_solves hp (fun j hj => by simp [hart] at hj) hx hc heq
  exists_solution y hy heq := by
    rw [← hp.own_eq] at hy
    refine ⟨columnsAt p y,(h.columnsAt_spec hp hy heq).2,?_⟩
    rw [← hp.own_eq]
    exact point_columnsAt y hy

/-- The artificial columns lie behind the variables, so removing them moves no variable. -/
lemma spread_own (x : ℕ → ℚ) {j : ℕ} (hj : j < p.own.size) : spread t.columns x j = x j := by
  have hnot := h.isArtificial_own hp hj
  rw [isArtificial] at hnot
  rw [spread,hnot,keptBefore_eq_self _ fun c hc => h.isArtificial_own hp (hc.trans hj)]
  rfl

lemma point_spread (x : ℕ → ℚ) : p.own.point (spread t.columns x) = p.registry.point x := by
  rw [← hp.own_eq]
  apply Registry.point_congr
  intro j hj
  exact h.spread_own hp x hj

/-- The entered costs say of a solution what the objective is worth. -/
lemma score_restored {u : Tableau ℚ} (hu : u.Rectangular) (hcolumns : u.columns = t.columns)
    (hobjective : u.objective = p.objective.maximized) {x : ℕ → ℚ} (hx : u.Solves x) :
    u.enterObjective.score x = p.objective.maximized.evaluate (p.own.point x) := by
  rw [score_enterObjective hu hx,hcolumns,hobjective,h.residual_objectiveCosts _ hp]

/-- So is one whose artificial columns were removed after they left the basis. -/
theorem represents_kept {u : Tableau ℚ} (hu : u.Canonical) (he : t.negateCosts.Equivalent u)
    (hb : ∀ r ∈ u.rows, u.isArtificial r.basic = false) : u.enterObjective.kept.Represents p := by
  have hcols : u.columns = t.columns := he.columns
  have hart : ∀ (x : ℕ → ℚ) (j : ℕ), t.isArtificial j = true → spread t.columns x j = 0 :=
    fun x j hj => if_pos hj
  have hsolves : ∀ x, u.enterObjective.kept.Solves x ↔ t.Solves (spread t.columns x) := by
    intro x
    rw [solves_kept,← hcols]
    exact he.solves _
  refine ⟨hu.enterObjective.kept hb,?_,he.minimizes.trans h.minimizes,?_,?_,?_,?_⟩
  · obtain ⟨vs,hm,hk⟩ := h.members
    refine ⟨vs.filter fun v => !v.isArtificial,?_,fun v hv => ?_⟩
    · change u.columns.members.filter _ = _
      rw [hcols,hm,List.filter_append,hp.own_eq]
      congr 1
      apply List.filter_eq_self.mpr
      intro v hv
      rw [Variable.isArtificial,hp.decisions v hv]
      rfl
    · have hmem : v.kind ∈ kindsOf p.constraints :=
        hk ▸ List.mem_map_of_mem (List.mem_of_mem_filter hv)
      exact isAdded_of_mem_kindsOf hmem
  · intro x hx
    have hx' : u.Solves (spread u.columns x) := (solves_kept u.enterObjective x).mp hx
    have hobj : u.objective = p.objective.maximized := he.objective.trans h.objective
    rw [score_kept]
    change u.enterObjective.score (spread u.columns x) = _
    rw [h.score_restored hp hu.toRectangular hcols hobj hx',hcols,h.point_spread hp]
  · intro x hx P
    rw [hsolves] at hx
    have hcolumns := h.forall_columns_iff hp (hart x) hx P
    rw [h.point_spread hp] at hcolumns
    have hfront : (∀ j < p.own.size, P (spread t.columns x j)) ↔
        ∀ j < p.registry.size, P (x j) := by
      rw [← hp.own_eq]
      exact forall₂_congr fun j hj => by rw [h.spread_own hp x hj]
    rw [← hfront,← hcolumns]
    change (∀ j < (u.columns.retain fun v => !v.isArtificial).size, P (x j)) ↔ _
    rw [hcols]
    exact forall_retain_iff t.columns x P
  · intro x hx c hc heq
    rw [← h.point_spread hp]
    exact h.equations_of_solves hp (hart x) ((hsolves x).mp hx) hc heq
  · intro y hy heq
    rw [← hp.own_eq] at hy
    obtain ⟨hzero,hsol⟩ := h.columnsAt_spec hp hy heq
    have hgather := spread_gather t.columns hzero
    refine ⟨gather t.columns (columnsAt p y),?_,?_⟩
    · rw [hsolves,hgather]
      exact hsol
    · rw [← h.point_spread hp,hgather,point_columnsAt y hy]

end StandardForm

end Tableau

end LinProg
