import LinProg.Proofs.Outcomes
import LinProg.Proofs.RatioTest
import LinProg.Proofs.Represents

/-!
What phase 2 starts from and what it ends with. All its tableaux represent the program, and their
right-hand sides stay nonnegative as long as no pivot of the solve overshoots.
-/
namespace LinProg

namespace Solver
variable {s : Solver ℚ} {p : Program ℚ} {t u : Tableau ℚ} {spent : ℕ}

def NeverOvershoots (s : Solver ℚ) (t : Tableau ℚ) : Prop :=
  ∀ stage v q, Event.pivot stage v q ∈ s.events t → ¬ s.Overshoots v q

lemma neverOvershoots_of_tolerance_zero (hs : s.tolerance = 0) : s.NeverOvershoots t :=
  fun _ v q _ => not_overshoots hs v q

lemma mem_events_of_firstRun (h2 : t.phase = .two) {e : Event ℚ}
    (he : e ∈ (s.firstRun t).events .one) : e ∈ s.events t := by
  have hone : e ∈ (s.phaseOne t).events := by
    have hends := s.ends_phaseOne t
    generalize s.phaseOne t = r at hends
    cases hends <;> simp [PhaseOne.events,he]
  simp only [events,h2]
  exact List.mem_append_left _ (List.mem_append_right _ hone)

lemma mem_events_of_phaseTwo (hr : s.ready t = .ok (spent,u)) {e : Event ℚ}
    (he : e ∈ (s.phaseTwo spent u).events .two) : e ∈ s.events t := by
  simp only [events,hr,phaseTwoEvents]
  exact List.mem_append_right _ (List.mem_append_left _ he)

section Ready
variable (hs : 0 ≤ s.tolerance) (h : t.StandardForm p) (hr : s.ready t = .ok (spent,u))
include hs h

/-- Phase 1 only changes the form of the first tableau. -/
lemma canonical_firstRun : (s.firstRun t).last.Canonical ∧
    t.negateCosts.Equivalent (s.firstRun t).last :=
  run_canonical hs _ h.canonical.negateCosts

lemma nonneg_firstRun (h2 : t.phase = .two) (hno : s.NeverOvershoots t) :
    (s.firstRun t).last.Nonneg :=
  run_nonneg hs .one _ h.canonical.negateCosts.toRectangular h.nonneg fun v q hq =>
    hno .one v q (mem_events_of_firstRun h2 hq)

include hr

theorem represents_ready (hp : p.Covered) : u.Represents p := by
  rcases ready_eq_ok hr with ⟨h1,-,rfl⟩ | ⟨h2,-,-,hb,rfl⟩
  · exact h.represents_of_single hp h1
  · obtain ⟨hc,he⟩ := canonical_firstRun hs h
    exact h.represents_kept hp hc he hb

theorem nonneg_ready (hno : s.NeverOvershoots t) : u.Nonneg := by
  rcases ready_eq_ok hr with ⟨h1,-,rfl⟩ | ⟨h2,-,-,hb,rfl⟩
  · exact h.nonneg
  · exact Tableau.Nonneg.kept (nonneg_firstRun hs h h2 hno)

/-- The last tableau of phase 2. -/
theorem represents_phaseTwo (hp : p.Covered) : (s.phaseTwo spent u).last.Represents p := by
  have hu := represents_ready hs h hr hp
  obtain ⟨hc,he⟩ := run_canonical hs (s.maxIterations-spent) hu.canonical
  exact hu.of_equivalent hc he

theorem nonneg_phaseTwo (hp : p.Covered) (hno : s.NeverOvershoots t) :
    (s.phaseTwo spent u).last.Nonneg :=
  run_nonneg hs .two _ (represents_ready hs h hr hp).canonical.toRectangular
    (nonneg_ready hs h hr hno) fun v q hq => hno .two v q (mem_events_of_phaseTwo hr hq)

end Ready

end Solver

namespace Tableau.Represents
variable {p : Program ℚ} {t : Tableau ℚ} (h : t.Represents p)
include h

/-- Nonnegative solutions are feasible points. -/
theorem feasible_of_solves {x : ℕ → ℚ} (hx : t.Solves x) (hx0 : ∀ j < t.columns.size, 0 ≤ x j) :
    p.Feasible (p.registry.point x) := by
  obtain ⟨hown,hmargin⟩ := (h.columns_iff x hx fun a => 0 ≤ a).mp hx0
  exact Program.feasible_point hown hmargin (h.equations x hx)

/-- Feasible points are nonnegative solutions. -/
theorem exists_of_feasible (ho : p.registry.Ordered) {y : ℕ → ℚ} (hy : p.Feasible y) :
    ∃ x, t.Solves x ∧ (∀ j < t.columns.size, 0 ≤ x j) ∧ p.registry.point x = y := by
  have hmargin := fun c hc => Constraint.holds_iff_margin.mp (hy.holds c hc)
  obtain ⟨x,hx,rfl⟩ := h.exists_solution y hy.zero fun c hc => (hmargin c hc).2
  refine ⟨x,hx,(h.columns_iff x hx fun a => 0 ≤ a).mpr ⟨fun j hj => ?_,fun c hc _ => ?_⟩,rfl⟩
  · have hj' : j < p.registry.members.length := hj
    have := hy.nonneg _ (List.getElem_mem hj')
    rwa [Registry.point_index ho x hj'] at this
  · exact (hmargin c hc).1

end Tableau.Represents

end LinProg
