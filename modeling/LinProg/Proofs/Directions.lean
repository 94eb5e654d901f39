import LinProg.Proofs.Negation
import LinProg.Proofs.RegistryOrder
import LinProg.Proofs.Runs
import LinProg.Solver.Solve

/-!
The two directions of an objective. Minimizing an expression and maximizing the negated one build
first tableaux that differ in a mark only. No operation looks at the mark before the last pivot, so
the two solves go through the same pivots, and they differ in the sign of the reported value.
-/
namespace LinProg

namespace Run
variable {K : Type} (f : Tableau K → Tableau K)

def map (r : Run K) : Run K := ⟨f r.start,r.moves.map fun m => ⟨m.pivot,f m.after⟩,r.stop⟩

@[simp] lemma stop_map (r : Run K) : (r.map f).stop = r.stop := rfl

@[simp] lemma length_map (r : Run K) : (r.map f).length = r.length := List.length_map ..

@[simp] lemma last_map (r : Run K) : (r.map f).last = f r.last := by
  obtain ⟨start,moves,stop⟩ := r
  induction moves generalizing start with
  | nil => rfl
  | cons m moves ih =>
    rw [last_cons]
    change (⟨f start,⟨m.pivot,f m.after⟩::_,stop⟩ : Run K).last = _
    rw [last_cons]
    exact ih m.after

end Run

/-- A change of the tableau that the choice of pivots does not see goes along with a run. -/
theorem Solver.run_map {K : Type} [Scalar K] {s : Solver K} {f : Tableau K → Tableau K}
    (hverdict : ∀ t, s.verdict (f t) = s.verdict t)
    (hpivot : ∀ t p, (f t).pivot p = f (t.pivot p)) (budget : ℕ) (t : Tableau K) :
    s.run budget (f t) = (s.run budget t).map f := by
  induction budget, t using s.run_induction with
  | optimal budget t h => exact s.run_of_optimal budget ((hverdict t).trans h)
  | unbounded budget t c h => exact s.run_of_unbounded budget ((hverdict t).trans h)
  | exhausted t p h => exact s.run_zero ((hverdict t).trans h)
  | pivot budget t p h ih =>
    rw [s.run_succ budget ((hverdict t).trans h),hpivot,ih]
    rfl

namespace Tableau
variable {K : Type} [Scalar K] (minimizes : Bool) (t : Tableau K)

def marked : Tableau K := { t with minimizes }

lemma pivot_marked (p : Pivot) : (t.marked minimizes).pivot p = (t.pivot p).marked minimizes := by
  unfold pivot marked
  dsimp only
  split <;> rfl

lemma negateCosts_marked : (t.marked minimizes).negateCosts = t.negateCosts.marked minimizes := rfl

lemma enterObjective_marked :
    (t.marked minimizes).enterObjective = t.enterObjective.marked minimizes := rfl

omit [Scalar K] in
lemma objectiveValue_marked : (t.marked minimizes).objectiveValue = t.objectiveValue := rfl

omit [Scalar K] in
lemma removeArtificials_marked : (t.marked minimizes).removeArtificials =
    t.removeArtificials.map (marked minimizes) := by
  unfold removeArtificials
  have hbasic : (t.marked minimizes).basicArtificial? = t.basicArtificial? := rfl
  rw [hbasic]
  cases t.basicArtificial? <;> rfl

/-- The first tableau is that of the maximized expression, but for the mark. -/
lemma build_marked (p : Program K) : build p =
    (build { p with objective := ⟨p.objective.maximized,.maximize⟩ }).map
      (marked !p.objective.isMaximize) := by
  unfold build
  change (ownColumns p.objective.maximized p.registry >>= _) =
    (ownColumns p.objective.maximized p.registry >>= _).map _
  cases ownColumns p.objective.maximized p.registry with
  | error m => rfl
  | ok own =>
    change (supplements { columns := own } p.constraints >>= _) =
      (supplements { columns := own } p.constraints >>= _).map _
    cases supplements { columns := own } p.constraints with
    | error m => rfl
    | ok x =>
      change (constraintRows own.members (x.1.columns.size-own.size) 1 p.constraints x.2 >>= _) =
        (constraintRows own.members (x.1.columns.size-own.size) 1 p.constraints x.2 >>= _).map _
      cases constraintRows own.members (x.1.columns.size-own.size) 1 p.constraints x.2 <;> rfl

end Tableau

namespace Solver
variable {K : Type} [Scalar K] (s : Solver K) (minimizes : Bool)

lemma run_marked (budget : ℕ) (t : Tableau K) :
    s.run budget (t.marked minimizes) = (s.run budget t).map (.marked minimizes) :=
  run_map (f := .marked minimizes) (fun _ => rfl) (Tableau.pivot_marked minimizes) budget t

/-- The residual and the artificial columns do not depend on the mark. -/
lemma phaseOneResult_marked (t : Tableau K) : s.phaseOneResult (s.phaseOne (t.marked minimizes)) =
    (s.phaseOneResult (s.phaseOne t)).map fun x => (x.1,x.2.marked minimizes) := by
  simp only [phaseOne,Tableau.negateCosts_marked,run_marked,Run.stop_map,Run.last_map,
    Tableau.objectiveValue_marked,Tableau.enterObjective_marked,Tableau.removeArtificials_marked]
  generalize s.run s.maxIterations t.negateCosts = r
  cases r.stop with
  | unbounded | exhausted => rfl
  | optimal =>
    dsimp only
    split
    case isTrue => rfl
    case isFalse =>
      cases r.last.enterObjective.removeArtificials with
      | error name => rfl
      | ok u =>
        change Except.ok ((r.map _).length,_) = Except.ok (r.length,_)
        rw [Run.length_map]

lemma ready_marked (t : Tableau K) : s.ready (t.marked minimizes) =
    (s.ready t).map fun x => (x.1,x.2.marked minimizes) := by
  cases h : t.phase with
  | single =>
    have h' : (t.marked minimizes).phase = .single := h
    rw [ready,ready,h,h']
    rfl
  | two =>
    have h' : (t.marked minimizes).phase = .two := h
    rw [ready,ready,h,h']
    exact s.phaseOneResult_marked minimizes t

/-- The mark matters for nothing but the last step of a solve. -/
theorem exists_solveTableau_marked (t : Tableau K) :
    ∃ outcome : Except (SolveError K) (Tableau K × ℕ), ∀ minimizes,
      s.solveTableau (t.marked minimizes) =
        outcome.map fun x => .ofTableau (x.1.marked minimizes).finish x.2 := by
  cases hready : s.ready t with
  | error e => exact ⟨.error e,fun m => by rw [solveTableau,ready_marked,hready]; rfl⟩
  | ok x =>
    obtain ⟨spent,u⟩ := x
    have hsolve : ∀ m, s.solveTableau (t.marked m) =
        s.phaseTwoResult spent ((s.phaseTwo spent u).map (.marked m)) := fun m => by
      rw [solveTableau,ready_marked,hready,phaseTwo,← run_marked]
      rfl
    simp only [hsolve,phaseTwoResult,Run.stop_map,Run.last_map,Run.length_map]
    cases (s.phaseTwo spent u).stop with
    | unbounded c => exact ⟨.error (.unbounded .two),fun _ => rfl⟩
    | exhausted => exact ⟨.error (.iterationLimit s.maxIterations),fun _ => rfl⟩
    | optimal => exact ⟨.ok ((s.phaseTwo spent u).last,_),fun _ => rfl⟩

end Solver

/-- Two solutions report the same point and opposite values. The sign of the value is also the only
difference between their tableaux, apart from the direction that these note. -/
structure Solution.Opposite {K : Type} [Scalar K] (a b : Solution K) : Prop where
  iterations : a.iterations = b.iterations
  values : a.values = b.values
  maximizes : b.tableau.minimizes = false
  tableau : a.tableau = { b.tableau with
    minimizes := true, costs := { b.tableau.costs with rhs := -b.tableau.costs.rhs } }
  /-- A zero has no sign in what is reported. -/
  zero : (b.tableau.costs.rhs == 0) = true → a.objectiveValue = 0 ∧ b.objectiveValue = 0
  value : (b.tableau.costs.rhs == 0) = false →
    b.objectiveValue = b.tableau.costs.rhs ∧ a.objectiveValue = -b.objectiveValue

lemma Solution.opposite_ofTableau {K : Type} [Scalar K] (hneg : ∀ x : K, (-x == 0) = (x == 0))
    (t : Tableau K) (iterations : ℕ) :
    Opposite (ofTableau (t.marked true).finish iterations)
      (ofTableau (t.marked false).finish iterations) where
  iterations := rfl
  values := rfl
  maximizes := rfl
  tableau := rfl
  zero h := by
    change (t.costs.rhs == 0) = true at h
    change Scalar.plainZero (-t.costs.rhs) = 0 ∧ Scalar.plainZero t.costs.rhs = 0
    rw [Scalar.plainZero,Scalar.plainZero,hneg,if_pos h,if_pos h]
    exact ⟨rfl,rfl⟩
  value h := by
    change (t.costs.rhs == 0) = false at h
    change Scalar.plainZero t.costs.rhs = t.costs.rhs ∧
      Scalar.plainZero (-t.costs.rhs) = -Scalar.plainZero t.costs.rhs
    rw [Scalar.plainZero,Scalar.plainZero,hneg,h]
    exact ⟨rfl,rfl⟩

namespace Solver

/-- Minimizing an expression ends as maximizing the negated one does: with the same error, or after
as many pivots with the same values of the variables and the opposite value of the objective. -/
theorem solve_minimize (s : Solver Float) (r : Registry) (f : Equation Float)
    (cs : List (Constraint Float)) :
    match s.solve ⟨r,⟨f.negate,.maximize⟩,cs⟩ with
    | .error e => s.solve ⟨r,⟨f,.minimize⟩,cs⟩ = .error e
    | .ok b => ∃ a, s.solve ⟨r,⟨f,.minimize⟩,cs⟩ = .ok a ∧ a.Opposite b := by
  have hmin := Tableau.build_marked ⟨r,⟨f,.minimize⟩,cs⟩
  have hmax := Tableau.build_marked ⟨r,⟨f.negate,.maximize⟩,cs⟩
  change _ = (Tableau.build ⟨r,⟨f.negate,.maximize⟩,cs⟩).map (Tableau.marked true) at hmin
  change _ = (Tableau.build ⟨r,⟨f.negate,.maximize⟩,cs⟩).map (Tableau.marked false) at hmax
  cases hb : Tableau.build ⟨r,⟨f.negate,.maximize⟩,cs⟩ with
  | error m =>
    rw [hb] at hmin
    rw [solve,solve,hb,hmin]
    rfl
  | ok t =>
    obtain ⟨outcome,hsolve⟩ := s.exists_solveTableau_marked t
    rw [hb] at hmin hmax
    have htrue : s.solve ⟨r,⟨f,.minimize⟩,cs⟩ = s.solveTableau (t.marked true) := by
      rw [solve,hmin]
      rfl
    have hfalse : s.solve ⟨r,⟨f.negate,.maximize⟩,cs⟩ = s.solveTableau (t.marked false) := by
      rw [solve,hb]
      exact congrArg s.solveTableau (Except.ok.inj hmax)
    rw [htrue,hfalse,hsolve,hsolve]
    cases outcome with
    | error e => rfl
    | ok x => exact ⟨_,rfl,Solution.opposite_ofTableau Double.neg_beq_zero x.1 x.2⟩

/-- The points where `X1 + X2 >= 2`, `X1 <= 1` and `X1 - X2 = -1`. -/
def stagedConstraints : List (Constraint Float) :=
  [⟨.ofList [(1,1),(2,1)],.atLeast,2⟩,⟨.ofList [(1,1),(2,0)],.atMost,1⟩,
    ⟨.ofList [(1,1),(2,-1)],.equal,-1⟩]

/-- The least value of `X1 + 2X2` is 3.5, after two pivots. -/
theorem solve_minimize_staged : ∃ a b,
    ({} : Solver Float).solve ⟨.numbered "X" 2,⟨.ofList [(1,1),(2,2)],.minimize⟩,
      stagedConstraints⟩ = .ok a ∧
    ({} : Solver Float).solve ⟨.numbered "X" 2,⟨(Equation.ofList [(1,1),(2,2)]).negate,.maximize⟩,
      stagedConstraints⟩ = .ok b ∧
    a.Opposite b ∧ a.iterations = 2 ∧ a.objectiveValue = 3.5 ∧ b.objectiveValue = -3.5 := by
  have hvalue : (({} : Solver Float).solve ⟨.numbered "X" 2,
      ⟨(Equation.ofList [(1,1),(2,2)]).negate,.maximize⟩,stagedConstraints⟩).toOption.map
        (fun b => (b.iterations,b.tableau.costs.rhs)) = some (2,-3.5) := by decide +kernel
  obtain ⟨b,hb,hparts⟩ := Option.map_eq_some_iff.mp hvalue
  obtain ⟨hiterations,hrhs⟩ := Prod.mk.inj hparts
  have hmax := Except.toOption_eq_some.mp hb
  generalize stagedConstraints = cs at hmax ⊢
  have hmin := solve_minimize {} (.numbered "X" 2) (.ofList [(1,1),(2,2)]) cs
  rw [hmax] at hmin
  obtain ⟨a,ha,hopposite⟩ := hmin
  have hne : (b.tableau.costs.rhs == 0) = false := by
    rw [hrhs]
    decide +kernel
  obtain ⟨hvalue,hneg⟩ := hopposite.value hne
  rw [hrhs] at hvalue
  refine ⟨a,b,ha,hmax,hopposite,hopposite.iterations.trans hiterations,?_,hvalue⟩
  rw [hneg,hvalue]
  decide +kernel

end Solver

end LinProg
