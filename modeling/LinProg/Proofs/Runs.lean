import LinProg.Proofs.Choice
import LinProg.Solver.Run

/-!
Runs of pivots. A property that every chosen pivot preserves holds all along a run, and the last
tableau of a run shows why it stopped.
-/
namespace LinProg

namespace Solver
variable {K : Type} [Scalar K] (s : Solver K)

lemma run_of_optimal (budget : ℕ) {t : Tableau K} (h : s.verdict t = .optimal) :
    s.run budget t = ⟨t,[],.optimal⟩ := by
  rw [run,runFrom]
  simp only [h,List.reverse_nil]

lemma run_of_unbounded (budget : ℕ) {t : Tableau K} {c : ℕ} (h : s.verdict t = .unbounded c) :
    s.run budget t = ⟨t,[],.unbounded c⟩ := by
  rw [run,runFrom]
  simp only [h,List.reverse_nil]

lemma run_zero {t : Tableau K} {p : Pivot} (h : s.verdict t = .pivot p) :
    s.run 0 t = ⟨t,[],.exhausted⟩ := by
  rw [run,runFrom]
  simp only [h,List.reverse_nil]

end Solver

@[simp] lemma Run.last_nil {K : Type} (t : Tableau K) (stop : Stop) :
    (⟨t,[],stop⟩ : Run K).last = t := rfl

@[simp] lemma Run.last_cons {K : Type} (t : Tableau K) (m : Move K) (ms : List (Move K))
    (stop : Stop) : (⟨t,m::ms,stop⟩ : Run K).last = (⟨m.after,ms,stop⟩ : Run K).last := by
  cases ms <;> simp [Run.last,List.getLast?_cons]

namespace Solver
variable {K : Type} [Scalar K] (s : Solver K)

@[simp] lemma start_run (budget : ℕ) (t : Tableau K) : (s.run budget t).start = t := by
  rw [run,runFrom_eq]

lemma last_run_cons (budget : ℕ) (t u : Tableau K) (p : Pivot) (stop : Stop) :
    (⟨t,⟨p,u⟩::(s.run budget u).moves,stop⟩ : Run K).last = (s.run budget u).last := by
  rw [Run.last_cons,Run.last,Run.last,start_run]

/-- Induction along a run: the tableau at hand asks for no pivot, or there is no budget for it, or
the run goes on from the pivoted tableau. -/
theorem run_induction {motive : ℕ → Tableau K → Run K → Prop}
    (optimal : ∀ budget t, s.verdict t = .optimal → motive budget t ⟨t,[],.optimal⟩)
    (unbounded : ∀ budget t c, s.verdict t = .unbounded c →
      motive budget t ⟨t,[],.unbounded c⟩)
    (exhausted : ∀ t p, s.verdict t = .pivot p → motive 0 t ⟨t,[],.exhausted⟩)
    (pivot : ∀ budget t p, s.verdict t = .pivot p →
      motive budget (t.pivot p) (s.run budget (t.pivot p)) →
      motive (budget+1) t ⟨t,⟨p,t.pivot p⟩::(s.run budget (t.pivot p)).moves,
        (s.run budget (t.pivot p)).stop⟩)
    (budget : ℕ) (t : Tableau K) : motive budget t (s.run budget t) := by
  induction budget generalizing t with
  | zero =>
    cases h : s.verdict t with
    | optimal => rw [s.run_of_optimal 0 h]; exact optimal 0 t h
    | unbounded c => rw [s.run_of_unbounded 0 h]; exact unbounded 0 t c h
    | pivot p => rw [s.run_zero h]; exact exhausted t p h
  | succ n ih =>
    cases h : s.verdict t with
    | optimal => rw [s.run_of_optimal _ h]; exact optimal _ t h
    | unbounded c => rw [s.run_of_unbounded _ h]; exact unbounded _ t c h
    | pivot p => rw [s.run_succ n h]; exact pivot n t p h (ih (t.pivot p))

/-- What every chosen pivot preserves holds at each tableau of a run. -/
theorem run_preserves {P : Tableau K → Prop}
    (step : ∀ t p, P t → s.verdict t = .pivot p → P (t.pivot p)) (budget : ℕ) {t : Tableau K}
    (h : P t) : P (s.run budget t).last ∧ ∀ m ∈ (s.run budget t).moves, P m.after := by
  induction budget, t using s.run_induction with
  | optimal budget t _ => exact ⟨h,by simp⟩
  | unbounded budget t c _ => exact ⟨h,by simp⟩
  | exhausted t p _ => exact ⟨h,by simp⟩
  | pivot budget t p hv ih =>
    have hp := step t p h hv
    obtain ⟨hl,hm⟩ := ih hp
    refine ⟨by rwa [last_run_cons],fun m hmem => ?_⟩
    rcases List.mem_cons.mp hmem with rfl | hmem
    · exact hp
    · exact hm m hmem

/-- The stop of a run is the verdict on its last tableau, unless the budget was spent. -/
theorem verdict_last (budget : ℕ) (t : Tableau K) :
    match (s.run budget t).stop with
    | .optimal => s.verdict (s.run budget t).last = .optimal
    | .unbounded c => s.verdict (s.run budget t).last = .unbounded c
    | .exhausted => ∃ p, s.verdict (s.run budget t).last = .pivot p := by
  induction budget, t using s.run_induction with
  | optimal budget t h => exact h
  | unbounded budget t c h => exact h
  | exhausted t p h => exact ⟨p,h⟩
  | pivot budget t p _ ih => simpa only [last_run_cons] using ih

lemma verdict_of_optimal {budget : ℕ} {t : Tableau K} (h : (s.run budget t).stop = .optimal) :
    s.verdict (s.run budget t).last = .optimal := by
  have hv := s.verdict_last budget t
  rwa [h] at hv

lemma verdict_of_unbounded {budget c : ℕ} {t : Tableau K}
    (h : (s.run budget t).stop = .unbounded c) :
    s.verdict (s.run budget t).last = .unbounded c := by
  have hv := s.verdict_last budget t
  rwa [h] at hv

end Solver

namespace Solver
variable {s : Solver ℚ} (hs : 0 ≤ s.tolerance)
include hs

/-- A chosen pivot only changes the form of a canonical tableau, and so does a run. -/
lemma canonical_of_verdict {t : Tableau ℚ} {p : Pivot} (ht : t.Canonical)
    (hv : s.verdict t = .pivot p) : (t.pivot p).Canonical ∧ t.Equivalent (t.pivot p) := by
  obtain ⟨row,hp⟩ := chosen_of_verdict hs ht.toRectangular hv
  exact ⟨ht.pivot hp.toAdmits,Tableau.equivalent_pivot hp.toAdmits ht.toRectangular⟩

theorem run_canonical (budget : ℕ) {t : Tableau ℚ} (ht : t.Canonical) :
    (s.run budget t).last.Canonical ∧ t.Equivalent (s.run budget t).last := by
  refine (s.run_preserves (P := fun u => u.Canonical ∧ t.Equivalent u) ?_ budget
    ⟨ht,.refl t⟩).1
  rintro u p ⟨hu,htu⟩ hv
  obtain ⟨hc,he⟩ := canonical_of_verdict hs hu hv
  exact ⟨hc,htu.trans he⟩

end Solver

end LinProg
