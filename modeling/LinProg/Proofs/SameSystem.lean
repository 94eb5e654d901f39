import LinProg.Proofs.Invariant

/-!
The tableaux of a solve as one linear system. All of them have the solutions of the first tableau,
those without artificial columns when zeros are put in for these; and on every solution the costs
say what the part of the solve is about, the sum of the artificial columns or the objective.
-/
namespace LinProg

/-- Values for the columns of a tableau as values for the columns of the first one. -/
def Station.extend (station : Station) (columns : Registry) (x : ℕ → ℚ) : ℕ → ℚ :=
  match station with
  | .phaseTwo => Tableau.spread columns x
  | .built | .phaseOne | .restored | .singlePhase => x

def Station.columns (station : Station) (columns : Registry) : Registry :=
  match station with
  | .phaseTwo => columns.retain fun v => !v.isArtificial
  | .built | .phaseOne | .restored | .singlePhase => columns

def Station.worth (station : Station) (p : Program ℚ) (t : Tableau ℚ) (x : ℕ → ℚ) : ℚ :=
  match station with
  | .built => t.artificialSum x
  | .phaseOne => -t.artificialSum x
  | .restored | .phaseTwo | .singlePhase => p.objective.maximized.evaluate (p.registry.point x)

/-- The snapshot says the same as the first tableau `t` of the program. -/
structure Snapshot.Restates (e : Snapshot ℚ) (p : Program ℚ) (t : Tableau ℚ) : Prop where
  canonical : e.tableau.Canonical
  columns : e.tableau.columns = e.station.columns t.columns
  objective : e.tableau.objective = p.objective.maximized
  solves : ∀ x, e.tableau.Solves x ↔ t.Solves (e.station.extend t.columns x)
  score : ∀ x, e.tableau.Solves x → e.tableau.score x = e.station.worth p t x

namespace Solver
variable {s : Solver ℚ} {p : Program ℚ} {t : Tableau ℚ} {a b : Snapshot ℚ}
  (h : t.StandardForm p) (hp : p.Covered)
include h hp

lemma restates_first : (Snapshot.first t).Restates p t := by
  unfold Snapshot.first
  split
  case h_1 hphase =>
    refine ⟨h.canonical,rfl,h.objective,fun _ => Iff.rfl,fun x _ => ?_⟩
    change t.score x = p.objective.maximized.evaluate (p.registry.point x)
    rw [h.score_of_single hphase hp,hp.own_eq]
  case h_2 hphase =>
    exact ⟨h.canonical,rfl,h.objective,fun _ => Iff.rfl,fun x hx => h.score_of_two hphase hx⟩

lemma Step.restates (hs : 0 ≤ s.tolerance) (hstep : s.Step a b) (ha : a.Restates p t) :
    b.Restates p t := by
  have hc := hstep.canonical hs ha.canonical
  cases hstep with
  | negate u =>
    refine ⟨hc,ha.columns,ha.objective,ha.solves,fun x hx => ?_⟩
    rw [Tableau.score_negateCosts,ha.score x hx]
    rfl
  | pivot _ u q hv =>
    obtain ⟨-,he⟩ := canonical_of_verdict hs ha.canonical hv
    refine ⟨hc,he.columns.trans ha.columns,he.objective.trans ha.objective,fun x => ?_,
      fun x hx => ?_⟩
    · exact (he.solves x).trans (ha.solves x)
    · have hu := (he.solves x).mp hx
      exact (he.score x hu).trans (ha.score x hu)
  | restore u =>
    refine ⟨hc,ha.columns,ha.objective,ha.solves,fun x hx => ?_⟩
    have hrect := ha.canonical.toRectangular
    rw [h.score_restored hp hrect ha.columns ha.objective hx,hp.own_eq]
    rfl
  | remove u v hr =>
    obtain ⟨-,rfl⟩ := Tableau.removeArtificials_eq_ok.mp hr
    have hcolumns : u.columns = t.columns := ha.columns
    refine ⟨hc,congrArg (Registry.retain · _) hcolumns,ha.objective,fun x => ?_,fun x hx => ?_⟩
    · rw [Tableau.solves_kept,hcolumns]
      exact ha.solves _
    · rw [Tableau.solves_kept] at hx
      rw [Tableau.score_kept,ha.score _ hx,hcolumns]
      change p.objective.maximized.evaluate (p.registry.point (Tableau.spread t.columns x)) = _
      rw [← hp.own_eq,h.point_spread hp]
      rfl

theorem history_restates (hs : 0 ≤ s.tolerance) : ∀ e ∈ s.history t, e.Restates p t :=
  history_induction (restates_first h hp) fun _ _ hstep => Step.restates h hp hs hstep

omit h

/-- Every tableau of a solve has the solutions of the first one, once zeros are put in for the
artificial columns that were removed. On every solution the costs of phase 1 say the negated sum of
the artificial columns, and all costs after it, or without it, what the objective is worth. -/
theorem history_same_system (hs : 0 ≤ s.tolerance) (hb : Tableau.build p = .ok t) :
    ∀ e ∈ s.history t,
      (e.station ≠ .phaseTwo →
        e.tableau.columns = t.columns ∧ ∀ x, e.tableau.Solves x ↔ t.Solves x) ∧
      (e.station = .phaseTwo →
        e.tableau.columns = (t.columns.retain fun v => !v.isArtificial) ∧
        ∀ x, e.tableau.Solves x ↔ t.Solves (Tableau.spread t.columns x)) ∧
      ∀ x, e.tableau.Solves x →
        (e.station = .phaseOne → e.tableau.score x = -t.artificialSum x) ∧
        (e.station = .restored ∨ e.station = .phaseTwo ∨ e.station = .singlePhase →
          e.tableau.score x =
            if p.objective.isMaximize then p.valueAt (p.registry.point x)
            else -p.valueAt (p.registry.point x)) := by
  intro e he
  have hr := history_restates (Tableau.standardForm_of_build hp.ordered hb) hp hs e he
  obtain ⟨station,u⟩ := e
  refine ⟨fun hne => ?_,?_,fun x hx => ⟨?_,?_⟩⟩
  · cases station with
    | phaseTwo => exact absurd rfl hne
    | built | phaseOne | restored | singlePhase => exact ⟨hr.columns,hr.solves⟩
  · rintro rfl
    exact ⟨hr.columns,hr.solves⟩
  · rintro rfl
    exact hr.score x hx
  · rw [← p.evaluate_maximized]
    rintro (rfl | rfl | rfl)
    all_goals exact hr.score x hx

omit hp

theorem history_same_system_staged : ∃ t, Tableau.build stagedProgram = .ok t ∧
    ∃ e ∈ (exact 100).history t, e.station = .phaseTwo ∧ ∀ x, e.tableau.Solves x →
      t.Solves (Tableau.spread t.columns x) ∧
      e.tableau.score x = -stagedProgram.valueAt (stagedProgram.registry.point x) := by
  obtain ⟨t,hb,hstations⟩ := exists_build_stagedProgram
  have hmem : Station.phaseTwo ∈ ((exact 100).history t).map Snapshot.station := by
    rw [hstations]
    decide
  obtain ⟨e,he,hstation⟩ := List.mem_map.mp hmem
  obtain ⟨-,hsolves,hscore⟩ := history_same_system covered_stagedProgram le_rfl hb e he
  refine ⟨t,hb,e,he,hstation,fun x hx => ⟨((hsolves hstation).2 x).mp hx,?_⟩⟩
  exact (hscore x hx).2 (.inr (.inl hstation))

end Solver

end LinProg
