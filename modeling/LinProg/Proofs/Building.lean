import LinProg.Proofs.AddedNames
import LinProg.Proofs.Feasible

/-!
Programs whose first tableau can be built. It takes an entry for every variable in each constraint,
and names and indices of their own for all columns.
-/
namespace LinProg

/-- The variables have indices from 1 on, in order, and names of their own. -/
structure Registry.Proper (r : Registry) : Prop where
  ordered : r.Ordered
  positive : ∀ v ∈ r.members, v.index ≠ 0
  names : r.members.Pairwise fun v w => v.isNamed w.name = false

namespace Program

/-- The number of slack and surplus columns together. -/
def slackCount (p : Program ℚ) : ℕ := (kindsOf p.constraints).countP (· != .artificial)

def artificialCount (p : Program ℚ) : ℕ := (kindsOf p.constraints).count .artificial

/-- A program that keeps the rules of the library: its variables have indices from 1 on and names of
their own, and neither the objective nor a constraint leaves one of them out. The index after the
last one leaves room in 64 bits for as many columns as are added. -/
structure Complete (p : Program ℚ) : Prop extends p.Covered where
  positive : ∀ v ∈ p.registry.members, v.index ≠ 0
  names : p.registry.members.Pairwise fun v w => v.isNamed w.name = false
  indices : p.registry.nextIndex+(kindsOf p.constraints).length ≤ wordLimit
  coefficients : ∀ c ∈ p.constraints, ∀ v ∈ p.registry.members,
    c.equation.contains v.index = true

/-- No variable is named like a column that is added to those of the program. -/
structure NamesFree (p : Program ℚ) : Prop where
  slack_free : ∀ k < p.slackCount, ∀ v ∈ p.registry.members,
    v.isNamed ("S" ++ toString (k+1)) = false
  artificial_free : ∀ k < p.artificialCount, ∀ v ∈ p.registry.members,
    v.isNamed ("A" ++ toString (k+1)) = false

structure WellFormed (p : Program ℚ) : Prop extends p.Complete, p.NamesFree

variable {p : Program ℚ}

lemma countP_slack (p : Program ℚ) :
    (kindsOf p.constraints).countP (·.stem == "S") = p.slackCount := by
  refine List.countP_congr fun kind _ => ?_
  cases kind <;> decide

lemma countP_artificial (p : Program ℚ) :
    (kindsOf p.constraints).countP (·.stem == "A") = p.artificialCount := by
  refine List.countP_congr fun kind _ => ?_
  cases kind <;> decide

lemma WellFormed.room (hp : p.WellFormed) :
    (⟨p.registry,0,0⟩ : Tableau.Growth).Room (kindsOf p.constraints) where
  ordered := hp.ordered
  free kind k _ hk := by
    cases kind with
    | artificial =>
      rw [Tableau.Growth.count,zero_add,Kind.stem,p.countP_artificial] at hk
      exact hp.artificial_free k hk
    | decision | slack | surplus =>
      rw [Tableau.Growth.count,zero_add,Kind.stem,p.countP_slack] at hk
      exact hp.slack_free k hk

/-- The indices of all columns are below `wordLimit`. -/
lemma Complete.index_lt (hp : p.Complete) : ∀ v ∈ p.registry.members ++
    (⟨p.registry,0,0⟩ : Tableau.Growth).added (kindsOf p.constraints), v.index < wordLimit := by
  intro v hv
  have hindices := hp.indices
  rcases List.mem_append.mp hv with hv | hv
  · have hlt := hp.ordered.lt_nextIndex v hv
    omega
  · have hindex := List.mem_map_of_mem (f := Variable.index) hv
    rw [Tableau.Growth.indices_added,List.mem_range'_1] at hindex
    exact hindex.2.trans_le hindices

end Program

namespace Tableau
variable {K : Type} [Scalar K]

lemma exists_mapM {α ε β : Type} {f : α → Except ε β} {l : List α}
    (h : ∀ a ∈ l, ∃ b, f a = .ok b) : ∃ l', l.mapM f = .ok l' := by
  induction l with
  | nil => exact ⟨[],rfl⟩
  | cons a l ih =>
    obtain ⟨b,hb⟩ := h a (by simp)
    obtain ⟨l',hl'⟩ := ih fun a ha => h a (List.mem_cons_of_mem _ ha)
    rw [List.mapM_cons]
    refine Except.exists_bind_eq_ok.mpr ⟨b,hb,Except.exists_bind_eq_ok.mpr ⟨l',hl',_,rfl⟩⟩

lemma exists_constraintRow {own : List Variable} (added number : ℕ) {c : Constraint K}
    (h : ∀ v ∈ own, c.equation.contains v.index = true) (s : Supplement K) :
    ∃ row, constraintRow own added number c s = .ok row := by
  rw [constraintRow,Except.exists_bind_eq_ok]
  refine (exists_mapM fun v hv => ?_).imp fun front hfront => ⟨hfront,_,rfl⟩
  obtain ⟨a,ha⟩ := Option.isSome_iff_exists.mp (h v hv)
  exact ⟨c.rowSign * a,by rw [ha]⟩

/-- The rows can be filled in if no constraint leaves a variable out. -/
lemma exists_constraintRows {own : List Variable} (added : ℕ) {cs : List (Constraint K)}
    (h : ∀ c ∈ cs, ∀ v ∈ own, c.equation.contains v.index = true) (number : ℕ)
    (ss : List (Supplement K)) : ∃ rows, constraintRows own added number cs ss = .ok rows := by
  induction cs generalizing number ss with
  | nil => exact ⟨[],rfl⟩
  | cons c cs ih =>
    cases ss with
    | nil => exact ⟨[],rfl⟩
    | cons s ss =>
      obtain ⟨row,hrow⟩ := exists_constraintRow added number (h c (by simp)) s
      obtain ⟨rows,hrows⟩ := ih (fun c hc => h c (List.mem_cons_of_mem _ hc)) (number+1) ss
      rw [constraintRows]
      exact Except.exists_bind_eq_ok.mpr ⟨row,hrow,Except.exists_bind_eq_ok.mpr ⟨rows,hrows,_,rfl⟩⟩

/-- Every variable that an expression mentions gets a column. -/
lemma ownColumns_of_proper {r : Registry} (hr : r.Proper) {o : Objective K}
    (h : ∀ v ∈ r.members, o.equation.contains v.index = true) :
    ownColumns o.maximized r = .ok r := by
  have hall : r.members.filter (fun v => o.maximized.contains v.index) = r.members := by
    apply List.filter_eq_self.mpr
    intro v hv
    rw [contains_maximized]
    exact h v hv
  rw [ownColumns,hall,Registry.foldlM_insert_of_fresh hr.positive]
  · simp [Registry.empty]
  · simpa [Registry.empty] using hr.names
  · simpa [Registry.empty,Registry.Ordered] using hr.ordered

variable {p : Program ℚ} {t : Tableau ℚ}

/-- The columns of a first tableau are those of all variables and, behind them, the added ones. -/
lemma members_of_build (hr : p.registry.Proper)
    (hp : ∀ v ∈ p.registry.members, p.objective.equation.contains v.index = true)
    (h : build p = .ok t) : t.columns.members =
      p.registry.members ++ (⟨p.registry,0,0⟩ : Growth).added (kindsOf p.constraints) := by
  obtain ⟨own,hown,h⟩ := Except.bind_eq_ok.mp h
  obtain ⟨⟨g,ss⟩,hg,h⟩ := Except.bind_eq_ok.mp h
  obtain ⟨rows,-,h⟩ := Except.bind_eq_ok.mp h
  obtain rfl := Except.ok.inj h
  rw [ownColumns_of_proper hr hp] at hown
  obtain rfl := Except.ok.inj hown
  dsimp only
  rw [eq_foldl_of_supplements hr.ordered hg,Growth.members_foldl_grow]
  rfl

lemma ownColumns_eq_ok (hp : p.Complete) :
    ownColumns p.objective.maximized p.registry = .ok p.registry :=
  ownColumns_of_proper ⟨hp.ordered,hp.positive,hp.names⟩ hp.objective

/-- The first tableau of a program that breaks no rule can be built. -/
theorem exists_build (hp : p.WellFormed) : ∃ t, build p = .ok t ∧ t.columns.members =
    p.registry.members ++ (⟨p.registry,0,0⟩ : Growth).added (kindsOf p.constraints) := by
  obtain ⟨ss,hss⟩ := hp.room.supplements
  obtain ⟨rows,hrows⟩ := exists_constraintRows
    (((kindsOf p.constraints).foldl Growth.grow ⟨p.registry,0,0⟩).columns.size-p.registry.size)
    hp.coefficients 1 ss
  refine ⟨_,Except.bind_eq_ok.mpr ⟨_,ownColumns_eq_ok hp.toComplete,Except.bind_eq_ok.mpr ⟨_,hss,
    Except.bind_eq_ok.mpr ⟨_,hrows,rfl⟩⟩⟩,?_⟩
  exact Growth.members_foldl_grow _ _

end Tableau

end LinProg
