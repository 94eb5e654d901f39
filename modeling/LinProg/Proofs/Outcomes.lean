import LinProg.Proofs.RegistryOrder
import LinProg.Proofs.Removal
import LinProg.Proofs.Runs
import LinProg.Solver.Solve

/-!
The outcomes of a solve, told by how its two runs stopped.
-/
namespace LinProg

namespace Solver

section
variable {K : Type} [Scalar K] {s : Solver K} {t : Tableau K}

lemma ready_of_two (s : Solver K) (h : t.phase = .two) :
    s.ready t = s.phaseOneResult (s.phaseOne t) := by rw [ready,h]

lemma ready_of_single (s : Solver K) (h : t.phase = .single) : s.ready t = .ok (0,t) := by
  rw [ready,h]

/-- A solution is read off the last tableau of phase 2. -/
theorem solve_eq_ok {p : Program K} {sol : Solution K} (h : s.solve p = .ok sol) :
    ∃ t spent u, Tableau.build p = .ok t ∧ s.ready t = .ok (spent,u) ∧
      (s.phaseTwo spent u).stop = .optimal ∧
      sol = .ofTableau (s.phaseTwo spent u).last.finish (spent+(s.phaseTwo spent u).length) := by
  unfold solve at h
  split at h
  case h_1 => contradiction
  case h_2 t hb =>
    obtain ⟨⟨spent,u⟩,hr,h⟩ := Except.bind_eq_ok.mp h
    change s.phaseTwoResult spent (s.phaseTwo spent u) = .ok sol at h
    unfold phaseTwoResult at h
    split at h
    case h_1 => contradiction
    case h_2 => contradiction
    case h_3 hstop => exact ⟨t,spent,u,hb,hr,hstop,(Except.ok.inj h).symm⟩

end

variable (s : Solver ℚ)

def firstRun (t : Tableau ℚ) : Run ℚ := s.run s.maxIterations t.negateCosts

/-- Phase 1 ended with a sum of the artificial columns that counts as zero. -/
def Passed (t : Tableau ℚ) : Prop :=
  (s.firstRun t).stop = .optimal ∧ |(s.firstRun t).last.costs.rhs| ≤ s.feasibilityTolerance

variable {s} {t u : Tableau ℚ} {spent : ℕ}

inductive Ends (s : Solver ℚ) (t : Tableau ℚ) : PhaseOne ℚ → Prop
  | unbounded (c : ℕ) (h : (s.firstRun t).stop = .unbounded c) :
      Ends s t (.unbounded (s.firstRun t))
  | exhausted (h : (s.firstRun t).stop = .exhausted) : Ends s t (.exhausted (s.firstRun t))
  | infeasible (residual : ℚ) (h : ¬ s.Passed t) : Ends s t (.infeasible (s.firstRun t) residual)
  | stuck (h : s.Passed t) (name : String)
      (hb : (s.firstRun t).last.enterObjective.removeArtificials = .error name) :
      Ends s t (.stuck (s.firstRun t) (s.firstRun t).last.enterObjective name)
  | done (h : s.Passed t) (u : Tableau ℚ)
      (hb : (s.firstRun t).last.enterObjective.removeArtificials = .ok u) :
      Ends s t (.done (s.firstRun t) (s.firstRun t).last.enterObjective u)

theorem ends_phaseOne (s : Solver ℚ) (t : Tableau ℚ) : s.Ends t (s.phaseOne t) := by
  unfold phaseOne
  dsimp only
  split
  case h_1 c hstop => exact .unbounded c hstop
  case h_2 hstop => exact .exhausted hstop
  case h_3 hstop =>
    rw [Scalar.magnitude_eq_abs,Tableau.objectiveValue,abs_neg]
    split
    case isTrue hlt => exact .infeasible _ fun h => absurd h.2 (not_le.mpr hlt)
    case isFalse hle =>
      split
      case h_1 name hname => exact .stuck ⟨hstop,not_lt.mp hle⟩ name hname
      case h_2 u hu => exact .done ⟨hstop,not_lt.mp hle⟩ u hu

/-- Phase 2 starts from the first tableau, or from the last one of phase 1 with the objective
entered and the artificial columns removed. -/
theorem ready_eq_ok (h : s.ready t = .ok (spent,u)) : (t.phase = .single ∧ spent = 0 ∧ u = t) ∨
    (t.phase = .two ∧ s.Passed t ∧ spent = (s.firstRun t).length ∧
      (∀ r ∈ (s.firstRun t).last.rows, (s.firstRun t).last.isArtificial r.basic = false) ∧
      u = (s.firstRun t).last.enterObjective.kept) := by
  cases hphase : t.phase with
  | single =>
    rw [ready_of_single s hphase] at h
    obtain ⟨rfl,rfl⟩ := Prod.mk.inj (Except.ok.inj h)
    exact .inl ⟨rfl,rfl,rfl⟩
  | two =>
    rw [ready_of_two s hphase] at h
    have hends := s.ends_phaseOne t
    generalize s.phaseOne t = r at hends h
    cases hends with
    | done hpassed u' hu' =>
      obtain ⟨rfl,rfl⟩ := Prod.mk.inj (Except.ok.inj h)
      obtain ⟨hb,hu'⟩ := Tableau.removeArtificials_eq_ok.mp hu'
      exact .inr ⟨rfl,hpassed,rfl,hb,hu'⟩
    | unbounded | exhausted | infeasible | stuck => contradiction

/-- What goes wrong before phase 2 goes wrong in phase 1. -/
lemma ready_eq_error {m : SolveError ℚ} (h : s.ready t = .error m) :
    t.phase = .two ∧ ∃ r, s.Ends t r ∧ s.phaseOneResult r = .error m := by
  cases hphase : t.phase with
  | single =>
    rw [ready_of_single s hphase] at h
    contradiction
  | two => exact ⟨rfl,_,s.ends_phaseOne t,(ready_of_two s hphase).symm.trans h⟩

/-- No pivot is found only in a run, and before phase 2 that is the run of phase 1. -/
theorem ready_eq_unbounded {stage : Stage} (h : s.ready t = .error (.unbounded stage)) :
    stage = .one ∧ t.phase = .two ∧ ∃ c, (s.firstRun t).stop = .unbounded c := by
  obtain ⟨h2,r,hends,hr⟩ := ready_eq_error h
  cases hends with
  | unbounded c hc =>
    cases hr
    exact ⟨rfl,h2,c,hc⟩
  | exhausted | infeasible | stuck | done => cases hr

/-- Phase 1 fails with an optimum that does not count as zero. The costs were negated, and so is the
value they end with. -/
theorem ready_eq_infeasible {residual : ℚ} (h : s.ready t = .error (.infeasible residual)) :
    t.phase = .two ∧ (s.firstRun t).stop = .optimal ∧
      residual = -(s.firstRun t).last.costs.rhs ∧ s.feasibilityTolerance < |residual| := by
  cases hphase : t.phase with
  | single =>
    rw [ready_of_single s hphase] at h
    contradiction
  | two =>
    rw [ready_of_two s hphase] at h
    refine ⟨rfl,?_⟩
    unfold phaseOne at h
    dsimp only at h
    split at h
    case h_1 => cases h
    case h_2 => cases h
    case h_3 hstop =>
      split at h
      case isTrue hlt =>
        cases h
        rw [Scalar.magnitude_eq_abs] at hlt
        exact ⟨hstop,rfl,hlt⟩
      case isFalse => split at h <;> cases h

/-- Phase 1 passes with an artificial column still in the basis. -/
theorem ready_eq_artificialInBasis : (∃ name, s.ready t = .error (.artificialInBasis name)) ↔
    t.phase = .two ∧ s.Passed t ∧
      ∃ r ∈ (s.firstRun t).last.rows, (s.firstRun t).last.isArtificial r.basic = true := by
  cases hphase : t.phase with
  | single => simp [ready_of_single s hphase]
  | two =>
    rw [ready_of_two s hphase]
    have hends := s.ends_phaseOne t
    generalize s.phaseOne t = r at hends
    cases hends with
    | unbounded c h => simp [phaseOneResult,Passed,h]
    | exhausted h => simp [phaseOneResult,Passed,h]
    | infeasible residual h => simp [phaseOneResult,h]
    | stuck hpassed name hname =>
      have hart := Tableau.exists_removeArtificials_eq_error.mp ⟨name,hname⟩
      exact iff_of_true ⟨name,rfl⟩ ⟨rfl,hpassed,hart⟩
    | done hpassed u hu =>
      obtain ⟨hb,-⟩ := Tableau.removeArtificials_eq_ok.mp hu
      refine iff_of_false (by rintro ⟨name,h⟩; contradiction) ?_
      rintro ⟨-,-,r,hr,hart⟩
      exact Bool.false_ne_true ((hb r hr).symm.trans hart)

variable {p : Program ℚ}

/-- What ends a solve early ended it before phase 2, or in the run of phase 2. -/
theorem solve_eq_error {e : SolveError ℚ} (h : s.solve p = .error e) :
    (∃ m, e = .misuse m) ∨ ∃ t, Tableau.build p = .ok t ∧ (s.ready t = .error e ∨
      ∃ spent u, s.ready t = .ok (spent,u) ∧
        s.phaseTwoResult spent (s.phaseTwo spent u) = .error e) := by
  unfold solve at h
  split at h
  case h_1 m _ => exact .inl ⟨m,(Except.error.inj h).symm⟩
  case h_2 t hb =>
    refine .inr ⟨t,hb,?_⟩
    unfold solveTableau at h
    cases hr : s.ready t with
    | error e' =>
      rw [hr] at h
      change Except.error e' = Except.error e at h
      rw [Except.error.inj h]
      exact .inl rfl
    | ok ready =>
      rw [hr] at h
      exact .inr ⟨ready.1,ready.2,rfl,h⟩

/-- What ends a solve before phase 2 is its result. -/
lemma solve_of_ready_eq_error {e : SolveError ℚ} (hb : Tableau.build p = .ok t)
    (h : s.ready t = .error e) : s.solve p = .error e := by
  unfold solve solveTableau
  rw [hb]
  dsimp only
  rw [h]
  rfl

/-- An artificial column in the basis is found before phase 2 only. -/
theorem solve_eq_artificialInBasis (hb : Tableau.build p = .ok t) :
    (∃ name, s.solve p = .error (.artificialInBasis name)) ↔ t.phase = .two ∧ s.Passed t ∧
      ∃ r ∈ (s.firstRun t).last.rows, (s.firstRun t).last.isArtificial r.basic = true := by
  rw [← ready_eq_artificialInBasis]
  apply exists_congr
  intro name
  constructor
  · intro h
    rcases solve_eq_error h with ⟨m,hm⟩ | ⟨t',hb',hr | ⟨spent,u,-,hu⟩⟩
    · contradiction
    · rw [hb] at hb'
      rwa [Except.ok.inj hb']
    · unfold phaseTwoResult at hu
      split at hu <;> cases hu
  · exact solve_of_ready_eq_error hb

end Solver

end LinProg
