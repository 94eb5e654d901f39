import LinProg.Proofs.Invariant
import LinProg.Proofs.Tolerance
import LinProg.Proofs.Unboundedness

/-!
What the verdict that a program is unbounded rests on, under a tolerance. It raises one column of
the last tableau and lets the basic columns follow. These points are feasible throughout exactly if
no right-hand side is negative and no entry of the column is positive; the verdict only makes sure
of entries above the tolerance.
-/
namespace LinProg

namespace Equation

lemma evaluate_pair {i j : ℕ} (h : i < j) (a b : ℚ) (y : ℕ → ℚ) :
    (ofList [(i,a),(j,b)]).evaluate y = a*y i+b*y j := by
  have hentries : (ofList [(i,a),(j,b)]).entries = [(i,a),(j,b)] := by
    simp [ofList,alter,alterEntries,empty,h]
  rw [evaluate_eq_sum,hentries]
  simp

end Equation

deriving instance DecidableEq for Objective, Constraint, Program

namespace Constraint

@[simp] lemma holdsWithin_zero {c : Constraint ℚ} {y : ℕ → ℚ} : c.HoldsWithin 0 y ↔ c.Holds y := by
  unfold HoldsWithin Holds
  cases c.relation with
  | atMost => simp
  | atLeast => simp
  | equal => simp [sub_eq_zero]

end Constraint

lemma Program.feasible_point_iff {p : Program ℚ} {x : ℕ → ℚ} :
    p.Feasible (p.registry.point x) ↔ p.HoldsWithin 0 (p.registry.point x) := by
  constructor
  · intro h
    exact ⟨fun v hv => neg_zero.trans_le (h.nonneg v hv),
      fun c hc => Constraint.holdsWithin_zero.mpr (h.holds c hc)⟩
  · intro h
    refine ⟨fun i hi => by rw [Registry.point,hi]; rfl,fun v hv => ?_,fun c hc => ?_⟩
    · exact neg_zero.symm.trans_le (h.nonneg v hv)
    · exact Constraint.holdsWithin_zero.mp (h.holds c hc)

namespace Tableau
variable {t : Tableau ℚ} {c : ℕ}

/-- The basic solution with the value `θ` for one more column, which the basic columns follow. -/
def edge (t : Tableau ℚ) (c : ℕ) (θ : ℚ) : ℕ → ℚ := t.settle fun i => if i = c then θ else 0

/-- Nothing keeps the column from growing. -/
def Unlimited (t : Tableau ℚ) (c : ℕ) : Prop := ∀ r ∈ t.rows, 0 ≤ r.rhs ∧ r.toRow.entry c ≤ 0

instance : Decidable (t.Unlimited c) :=
  inferInstanceAs (Decidable (∀ r ∈ t.rows, 0 ≤ r.rhs ∧ r.toRow.entry c ≤ 0))

/-- A column to be raised: growing, it improves the score. -/
structure Improves (t : Tableau ℚ) (c : ℕ) : Prop where
  lt : c < t.columns.size
  cost : t.costs.entry c < 0

lemma solves_edge (ht : t.Canonical) (c : ℕ) (θ : ℚ) : t.Solves (t.edge c θ) := ht.solves_settle _

section Edge
variable (ht : t.Canonical) (hc : t.Improves c)
include ht hc

/-- An improving column is not basic. -/
lemma Improves.basic_ne {r : BasicRow ℚ} (hr : r ∈ t.rows) : r.basic ≠ c := by
  rintro rfl
  exact hc.cost.ne (ht.priced r hr)

lemma edge_basic {r : BasicRow ℚ} (hr : r ∈ t.rows) (θ : ℚ) :
    t.edge c θ r.basic = r.rhs-r.toRow.entry c*θ := by
  have hne := hc.basic_ne ht hr
  obtain ⟨k,hk,rfl⟩ := List.getElem_of_mem hr
  rw [edge,ht.settle_basic _ hk,if_neg hne,zero_add,Row.residual,
    Row.dot_single ((ht.row_length _ hr).symm ▸ hc.lt)]

lemma score_edge (θ : ℚ) : t.score (t.edge c θ) = t.costs.rhs-t.costs.entry c*θ := by
  rw [edge,ht.score_settle,score,Row.residual,Row.dot_single (ht.costs_length.symm ▸ hc.lt)]

/-- Only the basic columns can fall below a bound. -/
lemma edge_ge_iff {θ ε : ℚ} (hθ : 0 ≤ θ) (hε : 0 ≤ ε) : (∀ j < t.columns.size, -ε ≤ t.edge c θ j) ↔
    ∀ r ∈ t.rows, r.toRow.entry c*θ ≤ r.rhs+ε := by
  constructor
  · intro h r hr
    have := h _ (ht.basic_lt r hr)
    rw [edge_basic ht hc hr] at this
    linarith
  · intro h j _
    by_cases hj : ∃ r ∈ t.rows, r.basic = j
    · obtain ⟨r,hr,rfl⟩ := hj
      rw [edge_basic ht hc hr]
      have := h r hr
      linarith
    · push Not at hj
      rw [edge,Canonical.settle_of_not_basic _ hj]
      split <;> linarith

end Edge

namespace Represents
variable {p : Program ℚ} (hv : t.Represents p) (ho : p.registry.Ordered) (hc : t.Improves c)
include hv ho hc

lemma holdsWithin_edge_iff {θ ε : ℚ} (hθ : 0 ≤ θ) (hε : 0 ≤ ε) :
    p.HoldsWithin ε (p.registry.point (t.edge c θ)) ↔
      ∀ r ∈ t.rows, r.toRow.entry c*θ ≤ r.rhs+ε := by
  rw [hv.holdsWithin_iff ho hε (solves_edge hv.canonical c θ)]
  exact edge_ge_iff hv.canonical hc hθ hε

/-- A column can grow without end exactly if nothing limits it. -/
theorem feasible_edge_iff :
    (∀ θ, 0 ≤ θ → p.Feasible (p.registry.point (t.edge c θ))) ↔ t.Unlimited c := by
  have hedge : ∀ θ, 0 ≤ θ → (p.Feasible (p.registry.point (t.edge c θ)) ↔
      ∀ r ∈ t.rows, r.toRow.entry c*θ ≤ r.rhs) := by
    intro θ hθ
    rw [Program.feasible_point_iff,hv.holdsWithin_edge_iff ho hc hθ le_rfl]
    simp only [add_zero]
  constructor
  · intro h r hr
    have hrhs : 0 ≤ r.rhs := by simpa using (hedge 0 le_rfl).mp (h 0 le_rfl) r hr
    refine ⟨hrhs,?_⟩
    by_contra! hpos
    have hθ : 0 ≤ (r.rhs+1)/r.toRow.entry c := by positivity
    have := (hedge _ hθ).mp (h _ hθ) r hr
    rw [mul_div_cancel₀ _ hpos.ne'] at this
    linarith
  · intro h θ hθ
    refine (hedge θ hθ).mpr fun r hr => ?_
    obtain ⟨hrhs,hentry⟩ := h r hr
    exact (mul_nonpos_of_nonpos_of_nonneg hentry hθ).trans hrhs

end Represents

/-- An unlimited column leads to solutions of any score. -/
lemma Unlimited.exists_ray (ht : t.Canonical) (hc : t.Improves c) (h : t.Unlimited c) (bound : ℚ) :
    ∃ x, t.Solves x ∧ (∀ j, 0 ≤ x j) ∧ bound < t.score x :=
  ht.exists_ray (fun r hr => (h r hr).1) hc.lt hc.cost (fun r hr => (h r hr).2) bound

end Tableau

namespace Solver
variable {s : Solver ℚ} {p : Program ℚ} {t u : Tableau ℚ} {spent c : ℕ}

/-- Some row limits the column, but its entry is within the tolerance, so that no ratio is taken. -/
def Overlooks (s : Solver ℚ) (t : Tableau ℚ) (c : ℕ) : Prop :=
  ∃ r ∈ t.rows, 0 < r.toRow.entry c ∧ r.toRow.entry c ≤ s.tolerance

section Verdict
variable (hs : 0 ≤ s.tolerance) (h : s.verdict t = .unbounded c)
include hs h

lemma improves_of_unbounded (ht : t.Canonical) : t.Improves c := by
  obtain ⟨hlt,hcost,-⟩ := s.column_of_unbounded h
  exact ⟨ht.costs_length ▸ hlt,by linarith⟩

/-- The entries that the verdict makes sure of. -/
lemma entry_le_of_unbounded (hn : t.Nonneg) {r : BasicRow ℚ} (hr : r ∈ t.rows) :
    r.toRow.entry c ≤ s.tolerance := by
  obtain ⟨-,-,hnone⟩ := s.column_of_unbounded h
  by_contra! hlt
  have := hnone r hr
  rw [ratio?_of_nonneg hs (hn r hr),if_pos hlt] at this
  contradiction

lemma unlimited_of_unbounded (hn : t.Nonneg) (hno : ¬ s.Overlooks t c) : t.Unlimited c := by
  intro r hr
  refine ⟨hn r hr,?_⟩
  by_contra! hpos
  exact hno ⟨r,hr,hpos,entry_le_of_unbounded hs h hn hr⟩

end Verdict

/-- Phase 1 stops at a column with a limit: its score is never positive. -/
lemma firstRun_limited (hs : 0 ≤ s.tolerance) (h : t.StandardForm p) (h2 : t.phase = .two)
    (hv : s.verdict (s.firstRun t).last = .unbounded c) : ¬ (s.firstRun t).last.Unlimited c := by
  intro hunlimited
  obtain ⟨hc,-⟩ := canonical_firstRun hs h
  obtain ⟨x,hx,hx0,hpos⟩ := hunlimited.exists_ray hc (improves_of_unbounded hs hv hc) 0
  exact hpos.not_ge (score_firstRun_nonpos hs h h2 hx hx0)

lemma getLast?_history_of_unbounded {stage : Stage} (h : s.ready t = .error (.unbounded stage)) :
    (s.history t).getLast? = some ⟨.phaseOne,(s.firstRun t).last⟩ := by
  obtain ⟨-,h2,-⟩ := ready_eq_unbounded h
  have hone : s.phaseOne t = .unbounded (s.firstRun t) := by
    rw [ready_of_two s h2] at h
    have hends := s.ends_phaseOne t
    generalize s.phaseOne t = r at hends h ⊢
    cases hends with
    | unbounded => rfl
    | exhausted | infeasible | stuck | done => cases h
  rw [history,h2,h,hone]
  dsimp only [PhaseOne.snapshots]
  rw [List.append_nil,List.getLast?_cons,Run.getLast?_snapshots]
  rfl

/-- What the error says of the last tableau `v` of a solve from `t`, whose column `c` it raises. -/
structure Raises (s : Solver ℚ) (p : Program ℚ) (t v : Tableau ℚ) (stage : Stage) (c : ℕ) :
    Prop where
  verdict : s.verdict v = .unbounded c
  canonical : v.Canonical
  nonneg : s.NeverOvershoots t → v.Nonneg
  represents : stage = .two → v.Represents p
  limited : stage = .one → ¬ v.Unlimited c

lemma exists_raises (hs : 0 ≤ s.tolerance) (hp : p.Covered) {stage : Stage}
    (h : s.solve p = .error (.unbounded stage)) : ∃ t e c, Tableau.build p = .ok t ∧
      (s.history t).getLast? = some e ∧ s.Raises p t e.tableau stage c := by
  rcases solve_eq_error h with ⟨m,hm⟩ | ⟨t,hb,hr | ⟨spent,u,hr,hu⟩⟩
  · contradiction
  · have hform := Tableau.standardForm_of_build hp.ordered hb
    obtain ⟨rfl,h2,c,hstop⟩ := ready_eq_unbounded hr
    have hverdict := s.verdict_of_unbounded hstop
    refine ⟨t,_,c,hb,getLast?_history_of_unbounded hr,hverdict,(canonical_firstRun hs hform).1,
      nonneg_firstRun hs hform h2,nofun,fun _ => firstRun_limited hs hform h2 hverdict⟩
  · have hform := Tableau.standardForm_of_build hp.ordered hb
    obtain ⟨rfl,c,hstop⟩ := phaseTwoResult_unbounded hu
    have hrep := represents_phaseTwo hs hform hr hp
    exact ⟨t,_,c,hb,getLast?_history_of_ready hr,s.verdict_of_unbounded hstop,hrep.canonical,
      nonneg_phaseTwo hs hform hr hp,fun _ => hrep,nofun⟩

end Solver

namespace Problem

/-- The default solver calls a compiled problem unbounded for a column that it raises from the last
basic solution. If nothing limits that column, this is found in phase 2, and the program has
feasible points of every value; and in phase 2 the points that the column passes are feasible only
then. If no pivot overshoots, a limit is a positive entry within the tolerance, and for each unit of
the column the objective gains more than `1e-10` while no sign or constraint loses more. -/
theorem unbounded_edge {problem : Problem ℚ} {p : Program ℚ} (hc : problem.compile = .ok p)
    {stage : Stage} (h : ({} : Solver ℚ).solve p = .error (.unbounded stage)) :
    ∃ t e c, Tableau.build p = .ok t ∧ (({} : Solver ℚ).history t).getLast? = some e ∧
      ({} : Solver ℚ).verdict e.tableau = .unbounded c ∧
      (e.tableau.Unlimited c → stage = .two ∧ (∃ y, p.Feasible y) ∧
        ∀ bound, ∃ y, p.Feasible y ∧ p.objective.direction.Better (p.valueAt y) bound) ∧
      (stage = .two →
        ((∀ θ, 0 ≤ θ → p.Feasible (p.registry.point (e.tableau.edge c θ))) ↔
          e.tableau.Unlimited c)) ∧
      (({} : Solver ℚ).NeverOvershoots t →
        (¬ ({} : Solver ℚ).Overlooks e.tableau c → e.tableau.Unlimited c) ∧
        (stage = .two → ∀ θ, 0 < θ →
          p.HoldsWithin (1e-10*θ) (p.registry.point (e.tableau.edge c θ)) ∧
          e.tableau.costs.rhs+1e-10*θ <
            p.objective.maximized.evaluate (p.registry.point (e.tableau.edge c θ)))) := by
  have hp := covered_of_compile hc
  have hs : 0 ≤ ({} : Solver ℚ).tolerance := by decide +kernel
  obtain ⟨t,e,c,hb,hlast,hraises⟩ := Solver.exists_raises hs hp h
  have himproves := Solver.improves_of_unbounded hs hraises.verdict hraises.canonical
  refine ⟨t,e,c,hb,hlast,hraises.verdict,fun hunlimited => ?_,fun h2 => ?_,fun hno => ⟨?_,?_⟩⟩
  · have h2 : stage = .two := by
      cases stage with
      | one => exact absurd hunlimited (hraises.limited rfl)
      | two => rfl
    have hrep := hraises.represents h2
    refine ⟨h2,⟨_,(hrep.feasible_edge_iff hp.ordered himproves).mpr hunlimited 0 le_rfl⟩,?_⟩
    exact Solver.exists_better_of_ray hrep (hunlimited.exists_ray hrep.canonical himproves)
  · exact (hraises.represents h2).feasible_edge_iff hp.ordered himproves
  · exact Solver.unlimited_of_unbounded hs hraises.verdict (hraises.nonneg hno)
  · intro h2 θ hθ
    have hrep := hraises.represents h2
    have hn := hraises.nonneg hno
    have hε : (0:ℚ) ≤ 1e-10*θ := by positivity
    refine ⟨(hrep.holdsWithin_edge_iff hp.ordered himproves hθ.le hε).mpr fun r hr => ?_,?_⟩
    · have hle := mul_le_mul_of_nonneg_right
        (Solver.entry_le_of_unbounded hs hraises.verdict hn hr) hθ.le
      exact hle.trans (le_add_of_nonneg_left (hn r hr))
    · obtain ⟨-,hcost,-⟩ := Solver.column_of_unbounded _ hraises.verdict
      rw [← hrep.score _ (Tableau.solves_edge hrep.canonical c θ),
        Tableau.score_edge hrep.canonical himproves,sub_eq_add_neg,← neg_mul]
      exact add_lt_add_right (mul_lt_mul_of_pos_right (lt_neg_of_lt_neg hcost) hθ) _

def openProblem : Problem ℚ where
  variableCount := 2
  objective := "X1"
  direction := .maximize
  constraints := [⟨"X1 + X2",.atLeast,2⟩,⟨"X1 - X2",.atMost,1⟩]

/-- The verdict falls on the surplus column, which nothing limits. -/
theorem unbounded_edge_open : ∃ p, openProblem.compile = .ok p ∧
    ({} : Solver ℚ).solve p = .error (.unbounded .two) ∧ (∃ y, p.Feasible y) ∧
    ∀ bound, ∃ y, p.Feasible y ∧ p.objective.direction.Better (p.valueAt y) bound := by
  have hvalue : (openProblem.compile.toOption.bind fun p =>
      (Tableau.build p).toOption.bind fun t =>
        (({} : Solver ℚ).history t).getLast?.map fun e =>
          (Except.failure? (({} : Solver ℚ).solve p),({} : Solver ℚ).verdict e.tableau,
            decide (e.tableau.Unlimited 2))) =
      some (some (.unbounded .two),.unbounded 2,true) := by decide +kernel
  obtain ⟨p,hp,hbuild⟩ := Option.bind_eq_some_iff.mp hvalue
  obtain ⟨t,ht,hlast⟩ := Option.bind_eq_some_iff.mp hbuild
  obtain ⟨e,he,heq⟩ := Option.map_eq_some_iff.mp hlast
  simp only [Prod.mk.injEq,decide_eq_true_eq] at heq
  obtain ⟨hfailure,hverdict,hunlimited⟩ := heq
  have hc := Except.toOption_eq_some.mp hp
  have h := Except.failure?_eq_some.mp hfailure
  obtain ⟨t',e',c,ht',he',hverdict',hsound,-⟩ := unbounded_edge hc h
  obtain rfl : t = t' := Except.ok.inj ((Except.toOption_eq_some.mp ht).symm.trans ht')
  obtain rfl : e = e' := Option.some.inj (he.symm.trans he')
  obtain rfl : 2 = c := Verdict.unbounded.inj (hverdict.symm.trans hverdict')
  obtain ⟨-,hfeasible,hbetter⟩ := hsound hunlimited
  exact ⟨p,hc,h,hfeasible,hbetter⟩

def looseProblem : Problem ℚ where
  variableCount := 2
  objective := "3X1 + X2"
  direction := .maximize
  constraints := [⟨"20000000000X1 + X2",.atMost,20000000000⟩]

def looseProgram : Program ℚ where
  registry := .numbered "X" 2
  objective := ⟨.ofList [(1,3),(2,1)],.maximize⟩
  constraints := [⟨.ofList [(1,20000000000),(2,1)],.atMost,20000000000⟩]

lemma valueAt_looseProgram_le {y : ℕ → ℚ} (hy : looseProgram.Feasible y) :
    looseProgram.valueAt y ≤ 20000000000 := by
  have h1 : 0 ≤ y 1 := hy.nonneg ⟨"X1",1,.decision,none⟩ (by decide)
  have hholds := hy.holds _ (List.mem_singleton.mpr rfl)
  simp only [Constraint.Holds] at hholds
  rw [Equation.evaluate_pair (by decide)] at hholds
  rw [Program.valueAt,looseProgram,Equation.evaluate_pair (by decide)]
  linarith

/-- The first pivot leaves `X2` the entry `5e-11`, within the tolerance, so the only row is passed
over, although the values of the objective never exceed 20000000000. -/
theorem loose_not_unbounded : looseProblem.compile = .ok looseProgram ∧
    ({} : Solver ℚ).solve looseProgram = .error (.unbounded .two) ∧
    ¬ ∀ bound, ∃ y, looseProgram.Feasible y ∧
      looseProgram.objective.direction.Better (looseProgram.valueAt y) bound := by
  refine ⟨Except.toOption_eq_some.mp (by decide +kernel),
    Except.failure?_eq_some.mp (by decide +kernel),fun hall => ?_⟩
  obtain ⟨y,hy,hbetter⟩ := hall 20000000000
  exact (valueAt_looseProgram_le hy).not_gt hbetter

def parallelProblem : Problem ℚ where
  variableCount := 2
  objective := "X1"
  direction := .minimize
  constraints := [⟨"15000000000X1 - 15000000001X2",.atMost,0⟩,⟨"X1 - X2",.equal,1⟩,
    ⟨"X1 - X2",.equal,2⟩]

def parallelProgram : Program ℚ where
  registry := .numbered "X" 2
  objective := ⟨.ofList [(1,1),(2,0)],.minimize⟩
  constraints := [⟨.ofList [(1,15000000000),(2,-15000000001)],.atMost,0⟩,
    ⟨.ofList [(1,1),(2,-1)],.equal,1⟩,⟨.ofList [(1,1),(2,-1)],.equal,2⟩]

/-- Phase 1 comes to the same verdict for the same reason. Nothing satisfies the constraints. -/
theorem parallel_not_feasible : parallelProblem.compile = .ok parallelProgram ∧
    ({} : Solver ℚ).solve parallelProgram = .error (.unbounded .one) ∧
    ¬ ∃ y, parallelProgram.Feasible y := by
  refine ⟨Except.toOption_eq_some.mp (by decide +kernel),
    Except.failure?_eq_some.mp (by decide +kernel),?_⟩
  rintro ⟨y,hy⟩
  have hone : (Equation.ofList [(1,1),(2,-1)]).evaluate y = 1 :=
    hy.holds ⟨.ofList [(1,1),(2,-1)],.equal,1⟩ (by simp [parallelProgram])
  have htwo : (Equation.ofList [(1,1),(2,-1)]).evaluate y = 2 :=
    hy.holds ⟨.ofList [(1,1),(2,-1)],.equal,2⟩ (by simp [parallelProgram])
  linarith

end Problem

end LinProg
