import LinProg.Proofs.Points
import LinProg.Tableau.Build

/-!
The first tableau of a program, written down without the bookkeeping that builds it: which columns
are added for which constraint, and what each row holds.
-/
namespace LinProg

/-- The kinds of the columns that a row of this relation needs. -/
def Relation.addedKinds : Relation → List Kind
  | .atMost => [.slack]
  | .atLeast => [.surplus,.artificial]
  | .equal => [.artificial]

def Constraint.addedKinds (c : Constraint ℚ) : List Kind := c.rowRelation.addedKinds

/-- The kinds of all added columns, in their order. -/
def kindsOf (cs : List (Constraint ℚ)) : List Kind := cs.flatMap Constraint.addedKinds

lemma kindsOf_cons (c : Constraint ℚ) (cs : List (Constraint ℚ)) :
    kindsOf (c::cs) = c.addedKinds ++ kindsOf cs := List.flatMap_cons

/-- The variables that get a column of their own: those the objective mentions. -/
def Program.own (p : Program ℚ) : Registry :=
  ⟨p.registry.members.filter fun v => p.objective.equation.contains v.index⟩

namespace Tableau

/-- The entries of a row in its own added columns, if the first of them is column `m`. -/
def supplementAt (m : ℕ) : Relation → Supplement ℚ
  | .atMost => ⟨[(m,1)],m⟩
  | .atLeast => ⟨[(m,-1),(m+1,1)],m+1⟩
  | .equal => ⟨[(m,1)],m⟩

/-- The constraints, each with the first of the columns added for it; column `m` is the next. -/
def placed : ℕ → List (Constraint ℚ) → List (Constraint ℚ × ℕ)
  | _, [] => []
  | m, c::cs => (c,m)::placed (m+c.addedKinds.length) cs

/-- The row of a constraint among `added` added columns. -/
def rowOf (own : List Variable) (added : ℕ) (e : Constraint ℚ × ℕ) : BasicRow ℚ where
  entries := own.map (fun v => e.1.rowSign * (e.1.equation.get? v.index).getD 0) ++
    (List.range added).map fun j =>
      ((supplementAt e.2 e.1.rowRelation).units.lookup (own.length+j)).getD 0
  rhs := e.1.rowSign * e.1.bound
  basic := (supplementAt e.2 e.1.rowRelation).basic

structure Growth.Adds (g g' : Growth) (kinds : List Kind) : Prop where
  ordered : g'.columns.Ordered
  members : ∃ vs : List Variable, g'.columns.members = g.columns.members ++ vs ∧
    vs.map Variable.kind = kinds
  artificials : g'.artificials = g.artificials + kinds.count .artificial

namespace Growth

lemma Adds.trans {g g' g'' : Growth} {ks ks' : List Kind} (h : g.Adds g' ks)
    (h' : g'.Adds g'' ks') : g.Adds g'' (ks ++ ks') where
  ordered := h'.ordered
  members := by
    obtain ⟨vs,hvs,hk⟩ := h.members
    obtain ⟨vs',hvs',hk'⟩ := h'.members
    exact ⟨vs ++ vs',by rw [hvs',hvs,List.append_assoc],by rw [List.map_append,hk,hk']⟩
  artificials := by rw [h'.artificials,h.artificials,List.count_append,add_assoc]

lemma Adds.size {g g' : Growth} {ks : List Kind} (h : g.Adds g' ks) :
    g'.columns.size = g.columns.size + ks.length := by
  obtain ⟨vs,hvs,rfl⟩ := h.members
  simp [Registry.size,hvs]

lemma addSlack_eq_ok {g g' : Growth} (hg : g.columns.Ordered) {kind : Kind}
    (hk : kind ≠ .artificial) (h : g.addSlack kind = .ok g') : g.Adds g' [kind] := by
  obtain ⟨columns,hpush,h⟩ := Except.bind_eq_ok.mp h
  obtain rfl := Except.ok.inj h
  obtain ⟨hm,ho⟩ := hg.push hpush
  exact ⟨ho,⟨_,hm,rfl⟩,by simp [hk]⟩

lemma addArtificial_eq_ok {g g' : Growth} (hg : g.columns.Ordered)
    (h : g.addArtificial = .ok g') : g.Adds g' [.artificial] := by
  obtain ⟨columns,hpush,h⟩ := Except.bind_eq_ok.mp h
  obtain rfl := Except.ok.inj h
  obtain ⟨hm,ho⟩ := hg.push hpush
  exact ⟨ho,⟨_,hm,rfl⟩,by simp⟩

end Growth

/-- A row starts solved for the last of the columns added for it. -/
lemma adds_of_supplement {K : Type} [Scalar K] {g g' : Growth} (hg : g.columns.Ordered)
    {r : Relation} {s : Supplement K} (h : supplement g r = .ok (g',s)) :
    g.Adds g' r.addedKinds ∧ s.basic+1 = g.columns.size+r.addedKinds.length := by
  cases r with
  | atMost =>
    obtain ⟨g₁,h₁,h⟩ := Except.bind_eq_ok.mp h
    obtain ⟨rfl,rfl⟩ := Prod.mk.inj (Except.ok.inj h)
    exact ⟨Growth.addSlack_eq_ok hg (by simp) h₁,rfl⟩
  | atLeast =>
    obtain ⟨g₁,h₁,h⟩ := Except.bind_eq_ok.mp h
    obtain ⟨g₂,h₂,h⟩ := Except.bind_eq_ok.mp h
    obtain ⟨rfl,rfl⟩ := Prod.mk.inj (Except.ok.inj h)
    have ha := Growth.addSlack_eq_ok hg (by simp) h₁
    exact ⟨ha.trans (Growth.addArtificial_eq_ok ha.ordered h₂),rfl⟩
  | equal =>
    obtain ⟨g₁,h₁,h⟩ := Except.bind_eq_ok.mp h
    obtain ⟨rfl,rfl⟩ := Prod.mk.inj (Except.ok.inj h)
    exact ⟨Growth.addArtificial_eq_ok hg h₁,rfl⟩

lemma supplement_eq_ok {g g' : Growth} (hg : g.columns.Ordered) {r : Relation} {s : Supplement ℚ}
    (h : supplement g r = .ok (g',s)) :
    g.Adds g' r.addedKinds ∧ s = supplementAt g.columns.size r := by
  refine ⟨(adds_of_supplement hg h).1,?_⟩
  cases r with
  | atMost | equal =>
    obtain ⟨g₁,-,h⟩ := Except.bind_eq_ok.mp h
    exact (congrArg Prod.snd (Except.ok.inj h)).symm
  | atLeast =>
    obtain ⟨g₁,-,h⟩ := Except.bind_eq_ok.mp h
    obtain ⟨g₂,-,h⟩ := Except.bind_eq_ok.mp h
    exact (congrArg Prod.snd (Except.ok.inj h)).symm

/-- The columns of all constraints lie one behind the other. -/
lemma supplements_eq_ok {cs : List (Constraint ℚ)} {g g' : Growth} {ss : List (Supplement ℚ)}
    (hg : g.columns.Ordered) (h : supplements g cs = .ok (g',ss)) :
    g.Adds g' (kindsOf cs) ∧
      ss = (placed g.columns.size cs).map fun e => supplementAt e.2 e.1.rowRelation := by
  induction cs generalizing g ss with
  | nil =>
    obtain ⟨rfl,rfl⟩ := Prod.mk.inj (Except.ok.inj h)
    exact ⟨⟨hg,⟨[],by simp,rfl⟩,by simp [kindsOf]⟩,rfl⟩
  | cons c cs ih =>
    obtain ⟨⟨g₁,s⟩,h₁,h⟩ := Except.bind_eq_ok.mp h
    obtain ⟨⟨g₂,ss'⟩,h₂,h⟩ := Except.bind_eq_ok.mp h
    obtain ⟨rfl,rfl⟩ := Prod.mk.inj (Except.ok.inj h)
    obtain ⟨ha,rfl⟩ := supplement_eq_ok hg h₁
    obtain ⟨hb,rfl⟩ := ih ha.ordered h₂
    refine ⟨ha.trans hb,?_⟩
    rw [ha.size]
    rfl

lemma mapM_eq_ok {α ε β : Type} {f : α → Except ε β} {g : α → β}
    (hg : ∀ a b, f a = .ok b → b = g a) {l : List α} {l' : List β} (h : l.mapM f = .ok l') :
    l' = l.map g := by
  induction l generalizing l' with
  | nil => exact (Except.ok.inj h).symm
  | cons a l ih =>
    rw [List.mapM_cons,Except.bind_eq_ok] at h
    obtain ⟨b,hb,h⟩ := h
    obtain ⟨rest,hrest,h⟩ := Except.bind_eq_ok.mp h
    obtain rfl := Except.ok.inj h
    rw [hg a b hb,ih hrest,List.map_cons]

lemma constraintRow_eq_ok {own : List Variable} {added number : ℕ} {c : Constraint ℚ} {m : ℕ}
    {row : BasicRow ℚ}
    (h : constraintRow own added number c (supplementAt m c.rowRelation) = .ok row) :
    row = rowOf own added (c,m) := by
  obtain ⟨front,hf,h⟩ := Except.bind_eq_ok.mp h
  have hfront := mapM_eq_ok (g := fun v => c.rowSign * (c.equation.get? v.index).getD 0)
    (fun v a hv => by split at hv <;> simp_all) hf
  subst hfront
  exact (Except.ok.inj h).symm

lemma constraintRows_eq_ok {own : List Variable} {added number m : ℕ} {cs : List (Constraint ℚ)}
    {rows : List (BasicRow ℚ)}
    (h : constraintRows own added number cs
      ((placed m cs).map fun e => supplementAt e.2 e.1.rowRelation) = .ok rows) :
    rows = (placed m cs).map (rowOf own added) := by
  induction cs generalizing number m rows with
  | nil => exact (Except.ok.inj h).symm
  | cons c cs ih =>
    obtain ⟨row,h₁,h⟩ := Except.bind_eq_ok.mp h
    obtain ⟨rest,h₂,h⟩ := Except.bind_eq_ok.mp h
    obtain rfl := Except.ok.inj h
    rw [constraintRow_eq_ok h₁,ih h₂]
    rfl

/-- The first tableau of a program. -/
structure StandardForm (p : Program ℚ) (t : Tableau ℚ) : Prop where
  ordered : t.columns.Ordered
  members : ∃ vs : List Variable, t.columns.members = p.own.members ++ vs ∧
    vs.map Variable.kind = kindsOf p.constraints
  rows : t.rows = (placed p.own.size p.constraints).map
    (rowOf p.own.members (t.columns.size-p.own.size))
  phase : t.phase = if .artificial ∈ kindsOf p.constraints then .two
    else .single
  costs : t.costs = match t.phase with
    | .single => objectiveCosts t.columns p.objective.maximized
    | .two => artificialCosts t.columns t.rows
  objective : t.objective = p.objective.maximized
  minimizes : t.minimizes = !p.objective.isMaximize

lemma contains_maximized {K : Type} [Scalar K] (o : Objective K) (i : ℕ) :
    o.maximized.contains i = o.equation.contains i := by
  unfold Objective.maximized Equation.contains
  split <;> simp

theorem standardForm_of_build {p : Program ℚ} {t : Tableau ℚ} (hp : p.registry.Ordered)
    (h : build p = .ok t) : StandardForm p t := by
  obtain ⟨own,hown,h⟩ := Except.bind_eq_ok.mp h
  obtain ⟨⟨g,ss⟩,hg,h⟩ := Except.bind_eq_ok.mp h
  obtain ⟨rows,hrows,h⟩ := Except.bind_eq_ok.mp h
  obtain rfl := Except.ok.inj h
  have hfilter : p.own.Ordered := List.Pairwise.filter _ hp
  have ho : own = p.own := by
    have hm := Registry.members_foldlM_insert (r := Registry.empty)
      (by simpa [Registry.empty,contains_maximized,Registry.Ordered,Program.own] using hfilter) hown
    simp only [Registry.empty,contains_maximized,List.nil_append] at hm
    cases own
    simpa [Program.own] using hm
  subst ho
  obtain ⟨ha,rfl⟩ := supplements_eq_ok hfilter hg
  obtain rfl := constraintRows_eq_ok hrows
  have hart : g.artificials = 0 ↔ .artificial ∉ kindsOf p.constraints := by
    rw [ha.artificials,← List.count_eq_zero]
    simp
  refine ⟨ha.ordered,ha.members,rfl,?_,rfl,rfl,rfl⟩
  simp only [hart]
  split <;> simp_all

end Tableau

end LinProg
