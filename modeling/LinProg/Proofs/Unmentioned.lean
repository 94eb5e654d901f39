import LinProg.Proofs.Optimality

/-!
Variables that the objective leaves out. A tableau has no columns for them, so a solve answers the
program without them: they are held at zero, and the answer does not list them. With an explicit
entry 0 in the objective they take part.
-/
namespace LinProg

namespace Equation

/-- An expression with an explicit 0 for every variable it leaves out. -/
def padded (r : Registry) (e : Equation ℚ) : Equation ℚ :=
  r.members.foldr (fun v e => e.alter v.index fun old => old.getD 0) e

lemma evaluate_alter_getD (e : Equation ℚ) (i : ℕ) (y : ℕ → ℚ) :
    (e.alter i fun old => old.getD 0).evaluate y = e.evaluate y := by
  rw [evaluate_eq_sum,evaluate_eq_sum]
  change ((alterEntries i (fun old => old.getD 0) e.entries).map _).sum = _
  induction e.entries with
  | nil => simp [alterEntries]
  | cons d rest ih =>
    rw [alterEntries]
    split_ifs with hlt heq
    · simp
    · simp
    · rw [List.map_cons,List.sum_cons,ih,List.map_cons,List.sum_cons]

@[simp] lemma evaluate_padded (r : Registry) (e : Equation ℚ) (y : ℕ → ℚ) :
    (e.padded r).evaluate y = e.evaluate y := by
  rw [padded]
  induction r.members with
  | nil => rfl
  | cons v vs ih => rw [List.foldr_cons,evaluate_alter_getD,ih]

lemma contains_padded {r : Registry} {v : Variable} (hv : v ∈ r.members) (e : Equation ℚ) :
    (e.padded r).contains v.index = true := by
  rw [padded]
  generalize r.members = vs at hv
  induction vs with
  | nil => contradiction
  | cons w vs ih =>
    rw [List.foldr_cons,contains,get?_alter]
    split_ifs with hw
    · rfl
    · refine ih ((List.mem_cons.mp hv).resolve_left ?_)
      rintro rfl
      exact hw rfl

end Equation

namespace Program

def padded (p : Program ℚ) : Program ℚ :=
  { p with objective := ⟨p.objective.equation.padded p.registry,p.objective.direction⟩ }

def narrowed (p : Program ℚ) : Program ℚ := { p with registry := p.own }

def IsOptimum (p : Program ℚ) (a : ℚ) : Prop :=
  (∃ y, p.Feasible y ∧ p.valueAt y = a) ∧
    ∀ y, p.Feasible y → ¬ p.objective.direction.Better (p.valueAt y) a

/-- A point of the program at which the variables that the objective leaves out are zero. -/
def FeasibleWithout (p : Program ℚ) (y : ℕ → ℚ) : Prop :=
  p.Feasible y ∧
    ∀ v ∈ p.registry.members, p.objective.equation.contains v.index = false → y v.index = 0

section Narrowed
variable {p : Program ℚ} {y : ℕ → ℚ}

lemma covered_padded (ho : p.registry.Ordered)
    (hd : ∀ v ∈ p.registry.members, v.kind = .decision) : p.padded.Covered where
  ordered := ho
  decisions := hd
  objective _ hv := Equation.contains_padded hv _

lemma covered_narrowed (ho : p.registry.Ordered)
    (hd : ∀ v ∈ p.registry.members, v.kind = .decision) : p.narrowed.Covered where
  ordered := List.Pairwise.filter _ ho
  decisions v hv := hd v (List.mem_of_mem_filter hv)
  objective _ hv := (List.mem_filter.mp hv).2

lemma feasible_padded : p.padded.Feasible y ↔ p.Feasible y :=
  ⟨fun h => ⟨h.zero,h.nonneg,h.holds⟩,fun h => ⟨h.zero,h.nonneg,h.holds⟩⟩

lemma valueAt_padded (p : Program ℚ) (y : ℕ → ℚ) : p.padded.valueAt y = p.valueAt y :=
  Equation.evaluate_padded _ _ _

lemma feasible_narrowed : p.narrowed.Feasible y ↔ p.FeasibleWithout y := by
  have hmem : ∀ v, v ∈ p.own.members ↔
      v ∈ p.registry.members ∧ p.objective.equation.contains v.index = true :=
    fun v => List.mem_filter
  constructor
  · intro h
    have hzero : ∀ v ∈ p.registry.members, p.objective.equation.contains v.index = false →
        y v.index = 0 := by
      intro v hv hnot
      refine h.zero _ (Registry.position?_eq_none.mpr fun w hw he => ?_)
      rw [← he,((hmem w).mp hw).2] at hnot
      contradiction
    refine ⟨⟨fun i hi => ?_,fun v hv => ?_,h.holds⟩,hzero⟩
    · refine h.zero i (Registry.position?_eq_none.mpr fun w hw => ?_)
      exact Registry.position?_eq_none.mp hi w ((hmem w).mp hw).1
    · cases hc : p.objective.equation.contains v.index with
      | true => exact h.nonneg v ((hmem v).mpr ⟨hv,hc⟩)
      | false => exact (hzero v hv hc).ge
  · rintro ⟨h,hzero⟩
    refine ⟨fun i hi => ?_,fun v hv => h.nonneg v ((hmem v).mp hv).1,h.holds⟩
    by_cases hin : ∃ v ∈ p.registry.members, v.index = i
    · obtain ⟨v,hv,rfl⟩ := hin
      refine hzero v hv (Bool.eq_false_iff.mpr fun hc => ?_)
      exact Registry.position?_eq_none.mp hi v ((hmem v).mpr ⟨hv,hc⟩) rfl
    · push Not at hin
      exact h.zero i (Registry.position?_eq_none.mpr hin)

lemma isOptimum_padded {a : ℚ} : p.padded.IsOptimum a ↔ p.IsOptimum a := by
  simp only [IsOptimum,feasible_padded,valueAt_padded]
  rfl

lemma IsOptimum.unique {a b : ℚ} (ha : p.IsOptimum a) (hb : p.IsOptimum b) : a = b := by
  obtain ⟨⟨y,hy,rfl⟩,hay⟩ := ha
  obtain ⟨⟨z,hz,rfl⟩,hbz⟩ := hb
  have hzy := hay z hz
  have hyz := hbz y hy
  cases hd : p.objective.direction with
  | maximize =>
    rw [hd] at hzy hyz
    exact le_antisymm (not_lt.mp hyz) (not_lt.mp hzy)
  | minimize =>
    rw [hd] at hzy hyz
    exact le_antisymm (not_lt.mp hzy) (not_lt.mp hyz)

end Narrowed

end Program

namespace Tableau

/-- The variables that the objective leaves out have no part in the first tableau. -/
lemma build_narrowed (p : Program ℚ) : build p.narrowed = build p := by
  have hown : ownColumns p.objective.maximized p.own =
      ownColumns p.objective.maximized p.registry := by
    simp only [ownColumns,contains_maximized,Program.own,List.filter_filter,Bool.and_self]
  simp only [build,Program.narrowed,hown]

end Tableau

namespace Solver
variable {s : Solver ℚ} {p : Program ℚ} {sol sol' : Solution ℚ}

lemma solve_narrowed (s : Solver ℚ) (p : Program ℚ) : s.solve p.narrowed = s.solve p := by
  simp only [solve,Tableau.build_narrowed]

lemma isOptimum_of_solve (hs : s.tolerance = 0) (hp : p.Covered) (h : s.solve p = .ok sol) :
    p.IsOptimum sol.objectiveValue ∧
      sol.values.map Prod.fst = p.registry.members.map Variable.label := by
  obtain ⟨t,v,-,hv,hnonneg,hopt,hread⟩ := exists_of_solve_eq_ok hs.ge hp h
  have hn := hnonneg (neverOvershoots_of_tolerance_zero hs)
  have hsolves := hv.canonical.solves_valueOf
  have hrect := hv.canonical.toRectangular
  refine ⟨⟨⟨_,hv.feasible_of_solves hsolves fun j _ => hn.valueOf j,hread.value.symm⟩,?_⟩,
    hread.labels⟩
  intro y hy
  obtain ⟨x,hx,hx0,rfl⟩ := hv.exists_of_feasible hp.ordered hy
  rw [hread.value,p.better_iff,not_lt,← hv.score x hx,← hv.score _ hsolves,
    hv.canonical.score_valueOf]
  exact Tableau.score_le hrect (costs_nonneg_of_optimal hs hrect hopt) hx0

/-- A solve lists the variables that the objective mentions and answers the optimum among the points
at which the others are zero. With explicit zeros it lists all variables and answers the optimum of
the program. So the two values are equal exactly if the optimum is reached with those variables at
zero. -/
theorem solution_unmentioned (hs : s.tolerance = 0) (ho : p.registry.Ordered)
    (hd : ∀ v ∈ p.registry.members, v.kind = .decision) (h : s.solve p = .ok sol)
    (h' : s.solve p.padded = .ok sol') :
    sol'.values.map Prod.fst = p.registry.members.map Variable.label ∧
    sol.values.map Prod.fst = (p.registry.members.filter fun v =>
      p.objective.equation.contains v.index).map Variable.label ∧
    p.IsOptimum sol'.objectiveValue ∧ p.narrowed.IsOptimum sol.objectiveValue ∧
    (sol.objectiveValue = sol'.objectiveValue ↔
      ∃ y, p.FeasibleWithout y ∧ p.valueAt y = sol'.objectiveValue) := by
  rw [← solve_narrowed] at h
  obtain ⟨hopt,hlabels⟩ := isOptimum_of_solve hs (Program.covered_narrowed ho hd) h
  obtain ⟨hopt',hlabels'⟩ := isOptimum_of_solve hs (Program.covered_padded ho hd) h'
  rw [Program.isOptimum_padded] at hopt'
  refine ⟨hlabels',hlabels,hopt',hopt,fun heq => ?_,?_⟩
  · obtain ⟨y,hy,hvalue⟩ := hopt.1
    exact ⟨y,Program.feasible_narrowed.mp hy,hvalue.trans heq⟩
  · rintro ⟨y,hy,hvalue⟩
    have hnarrowed : p.narrowed.IsOptimum sol'.objectiveValue :=
      ⟨⟨y,Program.feasible_narrowed.mpr hy,hvalue⟩,
        fun z hz => hopt'.2 z (Program.feasible_narrowed.mp hz).1⟩
    exact hopt.unique hnarrowed

/-- Maximizes `X1` where `X1 - X2 <= 1` and `X2 <= 5`. -/
def raisedProgram : Program ℚ where
  registry := .numbered "X" 2
  objective := ⟨.ofList [(1,1)],.maximize⟩
  constraints := [⟨.ofList [(1,1),(2,-1)],.atMost,1⟩,⟨.ofList [(1,0),(2,1)],.atMost,5⟩]

lemma solve_raisedProgram : ∃ sol sol', (exact 100).solve raisedProgram = .ok sol ∧
    (exact 100).solve raisedProgram.padded = .ok sol' ∧ sol.objectiveValue = 1 ∧
    sol'.objectiveValue = 6 := by
  have hvalues : ((exact 100).solve raisedProgram).toOption.bind (fun sol =>
      ((exact 100).solve raisedProgram.padded).toOption.map fun sol' =>
        (sol.objectiveValue,sol'.objectiveValue)) = some (1,6) := by decide +kernel
  obtain ⟨sol,hsol,hrest⟩ := Option.bind_eq_some_iff.mp hvalues
  obtain ⟨sol',hsol',hanswers⟩ := Option.map_eq_some_iff.mp hrest
  obtain ⟨hone,hsix⟩ := Prod.mk.inj hanswers
  exact ⟨sol,sol',Except.toOption_eq_some.mp hsol,Except.toOption_eq_some.mp hsol',hone,hsix⟩

theorem solution_unmentioned_raised : ∃ sol, (exact 100).solve raisedProgram = .ok sol ∧
    sol.values.map Prod.fst = ["X1"] ∧ raisedProgram.IsOptimum 6 ∧
    raisedProgram.narrowed.IsOptimum 1 ∧
    ¬ ∃ y, raisedProgram.FeasibleWithout y ∧ raisedProgram.valueAt y = 6 := by
  obtain ⟨sol,sol',h,h',hone,hsix⟩ := solve_raisedProgram
  obtain ⟨-,hlabels,hopt',hopt,hiff⟩ := solution_unmentioned rfl (Registry.ordered_numbered "X" 2)
    (by decide) h h'
  rw [hone,hsix] at hiff
  exact ⟨sol,h,hlabels.trans (by decide),hsix ▸ hopt',hone ▸ hopt,fun hy => by
    have := hiff.mpr hy
    norm_num at this⟩

/-- The optimum 6 takes `X2` to its bound, but without an entry in the objective `X2` is held at
zero. -/
theorem unmentioned_changes_value :
    (∀ c ∈ raisedProgram.constraints, ∀ v ∈ raisedProgram.registry.members,
      c.equation.contains v.index = true) ∧
    ∃ sol sol', (exact 100).solve raisedProgram = .ok sol ∧
      (exact 100).solve raisedProgram.padded = .ok sol' ∧
      sol.objectiveValue ≠ sol'.objectiveValue := by
  obtain ⟨sol,sol',h,h',hone,hsix⟩ := solve_raisedProgram
  refine ⟨by decide,sol,sol',h,h',?_⟩
  rw [hone,hsix]
  norm_num

end Solver

end LinProg
