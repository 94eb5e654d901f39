import LinProg.Proofs.Faithful
import LinProg.Proofs.NameClash
import LinProg.Proofs.SameSystem

/-!
What a solution reports fits together, at every tolerance. The reported values solve the first
tableau with zeros in the artificial columns, for these have left the basis before a solution is
read, so each constraint holds with the value of its slack or surplus column.
-/
namespace LinProg

namespace Tableau

lemma spread_eq_self {columns : Registry} (h : ∀ j, columns.isArtificial j = false) (x : ℕ → ℚ) :
    spread columns x = x := by
  funext j
  rw [spread,h,keptBefore_eq_self columns fun c _ => h c]
  rfl

lemma retain_eq_self {columns : Registry} (h : ∀ j, columns.isArtificial j = false) :
    (columns.retain fun v => !v.isArtificial) = columns := by
  cases columns with
  | mk members =>
    refine congrArg Registry.mk (List.filter_eq_self.mpr fun v hv => ?_)
    obtain ⟨j,hj,rfl⟩ := List.getElem_of_mem hv
    have := h j
    simpa [Registry.isArtificial,Registry.at?,hj] using this

/-- The last run is about the first tableau without its artificial columns, if it had any. -/
lemma StandardForm.ofPhase_columns {p : Program ℚ} {t : Tableau ℚ} (h : t.StandardForm p)
    (hp : p.Covered) : (Station.ofPhase t.phase).columns t.columns =
        (t.columns.retain fun v => !v.isArtificial) ∧
      ∀ x, (Station.ofPhase t.phase).extend t.columns x = spread t.columns x := by
  cases hphase : t.phase with
  | single =>
    have hnone := h.not_isArtificial_of_single hphase hp
    exact ⟨(retain_eq_self hnone).symm,fun x => (spread_eq_self hnone x).symm⟩
  | two => exact ⟨rfl,fun _ => rfl⟩

end Tableau

namespace Solver
variable {s : Solver ℚ} {p : Program ℚ} {sol : Solution ℚ}

/-- The columns of a solution are those of the first tableau that are not artificial, and their
values, with zeros for the artificial ones, solve the first tableau. -/
theorem exists_solves_spread (hs : 0 ≤ s.tolerance) (hp : p.Covered) (h : s.solve p = .ok sol) :
    ∃ t, Tableau.build p = .ok t ∧
      sol.tableau.columns = (t.columns.retain fun v => !v.isArtificial) ∧
      t.Solves (Tableau.spread t.columns sol.tableau.valueOf) := by
  obtain ⟨t,spent,u,hb,hr,-,rfl⟩ := solve_eq_ok h
  have hform := Tableau.standardForm_of_build hp.ordered hb
  have hlast := history_restates hform hp hs _ (snapshots_subset hr (Run.last_mem_snapshots _ _))
  obtain ⟨hcolumns,hextend⟩ := hform.ofPhase_columns hp
  refine ⟨t,hb,?_,?_⟩
  · rw [Solution.ofTableau,Tableau.columns_finish]
    exact hlast.columns.trans hcolumns
  · rw [Solution.ofTableau,Tableau.valueOf_finish,← hextend]
    exact (hlast.solves _).mp hlast.canonical.solves_valueOf

end Solver

namespace Problem

/-- The number of inequalities in front of the constraint with number `i`, counted from 0. -/
def inequalitiesBefore (problem : Problem ℚ) (i : ℕ) : ℕ :=
  (problem.constraints.take i).countP fun c => c.relation != .equal

/-- The slack or surplus column of the constraint with number `i`, when artificial columns are not
counted. -/
def marginColumn (problem : Problem ℚ) (i : ℕ) : ℕ :=
  problem.variableCount+problem.inequalitiesBefore i

end Problem

def Condition.Balanced (c : Condition ℚ) (lhs added : ℚ) : Prop :=
  match c.relation with
  | .atMost => lhs+added = c.rhs
  | .atLeast => lhs-added = c.rhs
  | .equal => lhs = c.rhs

def Constraint.marginKind (c : Constraint ℚ) : Kind :=
  if c.rowRelation = .atMost then .slack else .surplus

lemma Constraint.exists_addedKinds_eq {c : Constraint ℚ} (h : c.relation ≠ .equal) :
    ∃ kinds, c.addedKinds = c.marginKind::kinds := by
  have hrow : c.rowRelation ≠ .equal := fun he => h (c.rowRelation_eq_equal.mp he)
  unfold addedKinds marginKind
  cases hr : c.rowRelation with
  | atMost => exact ⟨[],rfl⟩
  | atLeast => exact ⟨[.artificial],rfl⟩
  | equal => contradiction

namespace Program
variable {p : Program ℚ} {t : Tableau ℚ} {i : ℕ}

def inequalitiesBefore (p : Program ℚ) (i : ℕ) : ℕ :=
  (p.constraints.take i).countP fun c => c.relation != .equal

lemma kindsOf_take_append (hi : i < p.constraints.length) : kindsOf p.constraints =
    kindsOf (p.constraints.take i) ++
      (p.constraints[i].addedKinds ++ kindsOf (p.constraints.drop (i+1))) := by
  conv_lhs => rw [← List.take_append_drop i p.constraints,List.drop_eq_getElem_cons hi]
  rw [kindsOf,List.flatMap_append,List.flatMap_cons]
  rfl

section Columns
variable (hm : t.columns.members =
    p.registry.members ++ (⟨p.registry,0,0⟩ : Tableau.Growth).added (kindsOf p.constraints))
include hm

/-- The first of the columns added for an inequality holds its margin. -/
lemma at?_firstAdded (hi : i < p.constraints.length) (hne : p.constraints[i].relation ≠ .equal) :
    ∃ v, t.columns.at? (p.firstAdded i) = some v ∧ v.kind = p.constraints[i].marginKind ∧
      v.name = "S" ++ toString (p.inequalitiesBefore i+1) := by
  obtain ⟨kinds,hkinds⟩ := Constraint.exists_addedKinds_eq hne
  have hstem : p.constraints[i].marginKind.stem = "S" := by
    unfold Constraint.marginKind
    split <;> rfl
  have hcount : ((kindsOf (p.constraints.take i)).foldl Tableau.Growth.grow
      ⟨p.registry,0,0⟩).count p.constraints[i].marginKind = p.inequalitiesBefore i := by
    have hzero : (⟨p.registry,0,0⟩ : Tableau.Growth).count p.constraints[i].marginKind = 0 := by
      cases p.constraints[i].marginKind <;> rfl
    rw [Tableau.Growth.count_foldl_grow,hzero,zero_add,hstem]
    exact countP_stem_slack (p.constraints.take i)
  have hat : t.columns.at? (p.firstAdded i) = some (((kindsOf (p.constraints.take i)).foldl
      Tableau.Growth.grow ⟨p.registry,0,0⟩).next p.constraints[i].marginKind) := by
    rw [Registry.at?,hm,firstAdded,Registry.size,List.getElem?_append_right (Nat.le_add_right _ _),
      Nat.add_sub_cancel_left,kindsOf_take_append hi,hkinds]
    exact Tableau.Growth.getElem?_added _ _ _ _
  refine ⟨_,hat,rfl,?_⟩
  rw [Tableau.Growth.next,hcount,Kind.nameAt,hstem]

/-- In front of it remain the columns of the variables and of the inequalities before. The variables
all stay, and of the columns added before, those that stay are called `S`. -/
lemma keptBefore_firstAdded (hp : p.Covered) (hi : i < p.constraints.length) :
    Tableau.keptBefore t.columns (p.firstAdded i) = p.registry.size+p.inequalitiesBefore i := by
  have hkinds := kindsOf_take_append hi
  have hle : p.firstAdded i ≤ t.columns.size := by
    have hlength := congrArg List.length (Tableau.Growth.kinds_added ⟨p.registry,0,0⟩
      (kindsOf p.constraints))
    rw [List.length_map,hkinds,List.length_append] at hlength
    rw [Registry.size,hm,List.length_append,firstAdded,Registry.size,hkinds]
    omega
  have hadded : (((⟨p.registry,0,0⟩ : Tableau.Growth).added (kindsOf p.constraints)).take
      (kindsOf (p.constraints.take i)).length).map Variable.kind =
        kindsOf (p.constraints.take i) := by
    rw [List.map_take,Tableau.Growth.kinds_added,hkinds,List.take_left]
  rw [← Tableau.length_filter_take _ hle,hm,firstAdded,Registry.size,List.take_length_add_append,
    List.filter_append,List.length_append]
  congr 1
  · rw [List.filter_eq_self.mpr fun v hv => by rw [Variable.isArtificial,hp.decisions v hv]; rfl]
  · have hkept : ∀ vs : List Variable, (vs.filter fun v => !v.isArtificial).length =
        (vs.map Variable.kind).countP (· != .artificial) := fun vs => by
      rw [List.countP_map,← List.countP_eq_length_filter]
      rfl
    calc _ = (kindsOf (p.constraints.take i)).countP (· != .artificial) := by rw [hkept,hadded]
      _ = (kindsOf (p.constraints.take i)).countP (·.stem == "S") :=
          List.countP_congr fun kind _ => by cases kind <;> decide
      _ = p.inequalitiesBefore i := countP_stem_slack (p.constraints.take i)

end Columns

end Program

namespace Solver
variable {s : Solver ℚ} {p : Program ℚ} {sol : Solution ℚ}

lemma pointOf_eq (hs : 0 ≤ s.tolerance) (hp : p.Covered) (h : s.solve p = .ok sol) :
    sol.pointOf p.registry = p.registry.point sol.tableau.valueOf := by
  obtain ⟨t,v,-,-,-,-,hread⟩ := exists_of_solve_eq_ok hs hp h
  have hvalue : sol.tableau.valueOf = v.valueOf := by
    funext j
    rw [Tableau.valueOf,Tableau.valueOf,hread.rows]
  rw [hread.point,hvalue]

/-- Every inequality of a program holds with the value of its slack or surplus column, and every
equation holds. -/
theorem margin_of_solve (hs : 0 ≤ s.tolerance) (hp : p.Covered) (hr : p.registry.Proper)
    (h : s.solve p = .ok sol) {i : ℕ} (hi : i < p.constraints.length) :
    (p.constraints[i].relation = .equal →
      p.constraints[i].margin (sol.pointOf p.registry) = 0) ∧
    (p.constraints[i].relation ≠ .equal →
      p.constraints[i].margin (sol.pointOf p.registry) =
        sol.tableau.valueOf (p.registry.size+p.inequalitiesBefore i) ∧
      ∃ v, sol.tableau.columns.at? (p.registry.size+p.inequalitiesBefore i) = some v ∧
        v.kind = p.constraints[i].marginKind ∧
        v.name = "S" ++ toString (p.inequalitiesBefore i+1)) := by
  obtain ⟨t,hb,hcolumns,hsolves⟩ := exists_solves_spread hs hp h
  have hform := Tableau.standardForm_of_build hp.ordered hb
  have hm := Tableau.members_of_build hr hp.objective hb
  have hzero : ∀ j, t.isArtificial j = true →
      Tableau.spread t.columns sol.tableau.valueOf j = 0 := fun j hj => if_pos hj
  have hplaced : i < (Tableau.placed p.own.size p.constraints).length := by
    rwa [← List.length_map (f := Prod.fst),Tableau.map_fst_placed]
  have hmargin := (hform.solves_iff hp hzero).mp hsolves _ (List.getElem_mem hplaced)
  rw [Tableau.getElem_placed hplaced hi,hform.point_spread hp,← pointOf_eq hs hp h,hp.own_eq]
    at hmargin
  refine ⟨fun he => by rwa [if_pos he] at hmargin,fun hne => ?_⟩
  obtain ⟨v,hv,hkind,hname⟩ := Program.at?_firstAdded hm hi hne
  have hnot : v.isArtificial = false := by
    rw [Variable.isArtificial,hkind,Constraint.marginKind]
    split <;> rfl
  have hcolumn : t.columns.isArtificial (p.firstAdded i) = false := by
    rw [Registry.isArtificial,hv]
    exact hnot
  have hkept := Program.keptBefore_firstAdded hm hp hi
  rw [if_neg hne] at hmargin
  refine ⟨?_,v,?_,hkind,hname⟩
  · refine hmargin.trans ?_
    change Tableau.spread t.columns _ (p.firstAdded i) = _
    rw [Tableau.spread,if_neg (by rw [hcolumn]; exact Bool.false_ne_true),hkept]
  · rw [hcolumns,← hkept]
    exact Tableau.at?_retain hv hnot

end Solver

/-- The values of a solution name the variables of the problem in their order, the objective has the
reported value at them, and there every constraint differs from its right-hand side by the value of
its slack or surplus column. -/
structure Solution.Consistent (sol : Solution ℚ) (problem : Problem ℚ) : Prop where
  names : sol.values.map Prod.fst =
    (List.range problem.variableCount).map fun i => "X" ++ toString (i+1)
  objective : ∃ e, Formula.read problem.objective (.numbered "X" problem.variableCount) = .ok e ∧
    sol.objectiveValue = e.evaluate (sol.pointOf (.numbered "X" problem.variableCount))
  /-- The slack and surplus columns come behind those of the variables, in the order of the
  constraints. A negative right-hand side exchanges slack and surplus. -/
  column : ∀ (i : ℕ) (hi : i < problem.constraints.length),
    problem.constraints[i].relation ≠ .equal →
    ∃ v, sol.tableau.columns.at? (problem.marginColumn i) = some v ∧
      v.name = "S" ++ toString (problem.inequalitiesBefore i+1) ∧
      v.kind = if (problem.constraints[i].relation = .atMost ↔ 0 ≤ problem.constraints[i].rhs)
        then .slack else .surplus
  balance : ∀ (i : ℕ) (hi : i < problem.constraints.length),
    ∃ e, Formula.read problem.constraints[i].lhs (.numbered "X" problem.variableCount) = .ok e ∧
      problem.constraints[i].Balanced
        (e.evaluate (sol.pointOf (.numbered "X" problem.variableCount)))
        (sol.tableau.valueOf (problem.marginColumn i))

namespace Constraint

/-- Turning a row around turns a slack into a surplus, and a surplus into a slack. -/
lemma marginKind_eq {c : Constraint ℚ} (h : c.relation ≠ .equal) :
    c.marginKind = if (c.relation = .atMost ↔ 0 ≤ c.bound) then .slack else .surplus := by
  unfold marginKind rowRelation
  cases hr : c.relation with
  | atMost => by_cases hb : 0 ≤ c.bound <;> simp [hb,Relation.flip]
  | atLeast => by_cases hb : 0 ≤ c.bound <;> simp [hb,Relation.flip]
  | equal => contradiction

end Constraint

lemma Condition.balanced_of_margin {c : Condition ℚ} {c' : Constraint ℚ} {y : ℕ → ℚ} {added : ℚ}
    (hrelation : c'.relation = c.relation) (hbound : c'.bound = c.rhs)
    (hzero : c'.relation = .equal → c'.margin y = 0)
    (hvalue : c'.relation ≠ .equal → c'.margin y = added) :
    c.Balanced (c'.equation.evaluate y) added := by
  unfold Constraint.margin at hzero hvalue
  unfold Balanced
  rw [hrelation,hbound] at hzero hvalue
  cases hc : c.relation with
  | atMost =>
    simp only [hc,ne_eq,reduceCtorEq,not_false_eq_true,forall_const] at hvalue
    exact add_eq_of_eq_sub' hvalue.symm
  | atLeast =>
    simp only [hc,ne_eq,reduceCtorEq,not_false_eq_true,forall_const] at hvalue
    rw [← hvalue,sub_sub_cancel]
  | equal =>
    simp only [hc,forall_const] at hzero
    exact (sub_eq_zero.mp hzero).symm

namespace Problem.ReadsAs
variable {problem : Problem ℚ} {stem : String} {p : Program ℚ} (h : problem.ReadsAs stem p)
include h

lemma exists_constraint {i : ℕ} (hi : i < problem.constraints.length) :
    ∃ hi' : i < p.constraints.length,
      Formula.read problem.constraints[i].lhs p.registry = .ok p.constraints[i].equation ∧
      p.constraints[i].relation = problem.constraints[i].relation ∧
      p.constraints[i].bound = problem.constraints[i].rhs :=
  ⟨h.constraints.length_eq ▸ hi,h.constraints.get hi _⟩

lemma map_relation : p.constraints.map Constraint.relation =
    problem.constraints.map Condition.relation := by
  apply List.ext_getElem
  · rw [List.length_map,List.length_map,h.constraints.length_eq]
  · intro i _ hi
    obtain ⟨_,-,hrelation,-⟩ := h.exists_constraint (by rwa [List.length_map] at hi)
    rw [List.getElem_map,List.getElem_map,hrelation]

lemma inequalitiesBefore_eq (i : ℕ) : p.inequalitiesBefore i = problem.inequalitiesBefore i := by
  have hcount := congrArg (fun rs => (rs.take i).countP (· != Relation.equal)) h.map_relation
  rwa [← List.map_take,← List.map_take,List.countP_map,List.countP_map] at hcount

/-- The column of a margin has the same place in the program and in the problem. -/
lemma marginColumn_eq (i : ℕ) :
    p.registry.size+p.inequalitiesBefore i = problem.marginColumn i := by
  rw [h.registry,Registry.size_numbered,h.inequalitiesBefore_eq,marginColumn]

end Problem.ReadsAs

/-- Whatever residual phase 1 let pass, the numbers of a solution are consistent. -/
theorem Solver.solution_consistent {s : Solver ℚ} {problem : Problem ℚ} {p : Program ℚ}
    {sol : Solution ℚ} (hs : 0 ≤ s.tolerance) (hc : problem.compile = .ok p)
    (h : s.solve p = .ok sol) : sol.Consistent problem := by
  have hparts := Problem.readsAs_of_compile hc
  have hp := Problem.covered_of_compile hc
  have hr : p.registry.Proper := hparts.registry ▸ Registry.proper_numbered _ _
  obtain ⟨-,v,-,-,-,-,hread⟩ := exists_of_solve_eq_ok hs hp h
  refine ⟨?names,⟨p.objective.equation,?_,?_⟩,fun i hi hne => ?column,fun i hi => ?balance⟩
  case names =>
    rw [hread.labels,hparts.registry,Registry.numbered,List.map_map]
    rfl
  · rw [← hparts.registry]
    exact hparts.objective
  · rw [← hparts.registry,hread.point]
    exact hread.value
  case column =>
    obtain ⟨hi',-,hrelation,hbound⟩ := hparts.exists_constraint hi
    rw [← hrelation] at hne
    obtain ⟨v,hv,hkind,hname⟩ := ((margin_of_solve hs hp hr h hi').2 hne).2
    rw [hparts.marginColumn_eq] at hv
    rw [hparts.inequalitiesBefore_eq] at hname
    rw [Constraint.marginKind_eq hne,hrelation,hbound] at hkind
    exact ⟨v,hv,hname,hkind⟩
  case balance =>
    obtain ⟨hi',hreads,hrelation,hbound⟩ := hparts.exists_constraint hi
    obtain ⟨hzero,hvalue⟩ := margin_of_solve hs hp hr h hi'
    rw [hparts.marginColumn_eq] at hvalue
    rw [← hparts.registry]
    exact ⟨_,hreads,Condition.balanced_of_margin hrelation hbound hzero fun hne => (hvalue hne).1⟩

def mixedProblem : Problem ℚ where
  variableCount := 2
  objective := "X1 + 2X2"
  direction := .minimize
  constraints := [⟨"X1 + X2",.atLeast,2⟩,⟨"X1 - 3X2",.atLeast,-7⟩,⟨"X1",.atMost,1⟩,⟨"2X2",.equal,3⟩]

/-- Phase 1 lets any residual up to 10 pass here. -/
theorem Solver.solution_consistent_mixed : ∃ p sol, mixedProblem.compile = .ok p ∧
    ({feasibilityTolerance := 10} : Solver ℚ).solve p = .ok sol ∧ sol.Consistent mixedProblem := by
  have hvalue : (mixedProblem.compile.toOption.bind fun p =>
      (({feasibilityTolerance := 10} : Solver ℚ).solve p).toOption.map fun sol =>
        (sol.objectiveValue,sol.values)) = some (7/2,[("X1",1/2),("X2",3/2)]) := by decide +kernel
  obtain ⟨p,hp,hsolve⟩ := Option.bind_eq_some_iff.mp hvalue
  obtain ⟨sol,hsol,-⟩ := Option.map_eq_some_iff.mp hsolve
  have hc := Except.toOption_eq_some.mp hp
  have h := Except.toOption_eq_some.mp hsol
  exact ⟨p,sol,hc,h,Solver.solution_consistent (by norm_num) hc h⟩

end LinProg
