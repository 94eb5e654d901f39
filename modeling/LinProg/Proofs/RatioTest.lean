import LinProg.Proofs.Runs
import LinProg.Solver.Event

/-!
The ratio test keeps the basic solution nonnegative, except where the tolerance makes it pass over a
small positive entry. With tolerance zero there are no such entries.
-/
namespace LinProg

namespace Solver

/-- The step of a pivot is longer than some row with a small entry allows: the entry is positive but
within the tolerance, so the ratio test passes the row over. -/
def Overshoots (s : Solver ℚ) (t : Tableau ℚ) (p : Pivot) : Prop :=
  ∃ row, t.rows[p.row]? = some row ∧ ∃ r ∈ t.rows,
    0 < r.toRow.entry p.column ∧ r.toRow.entry p.column ≤ s.tolerance ∧
    r.rhs < r.toRow.entry p.column * (row.rhs / row.toRow.entry p.column)

variable {s : Solver ℚ}

lemma not_overshoots (hs : s.tolerance = 0) (t : Tableau ℚ) (p : Pivot) : ¬ s.Overshoots t p := by
  rintro ⟨_,_,_,_,hpos,hle,_⟩
  exact absurd hpos (not_lt.mpr (hs ▸ hle))

variable (hs : 0 ≤ s.tolerance)
include hs

lemma Chosen.tolerance_lt {t : Tableau ℚ} {p : Pivot} {row : BasicRow ℚ} (ht : t.Nonneg)
    (hp : s.Chosen t p row) : s.tolerance < row.toRow.entry p.column := by
  by_contra hle
  have hlim := hp.limits
  rw [ratio?_of_nonneg hs (ht _ hp.mem),if_neg hle] at hlim
  contradiction

theorem Chosen.nonneg_pivot {t : Tableau ℚ} {p : Pivot} {row : BasicRow ℚ} (ht : t.Nonneg)
    (hp : s.Chosen t p row) (hno : ¬ s.Overshoots t p) : (t.pivot p).Nonneg := by
  have hpos := hs.trans_lt (hp.tolerance_lt hs ht)
  refine ht.pivot hp.toAdmits hpos fun r hr he => ?_
  by_cases htol : s.tolerance < r.toRow.entry p.column
  · have hle := hp.least r hr (r.rhs / r.toRow.entry p.column)
      (by rw [ratio?_of_nonneg hs (ht r hr),if_pos htol])
    rwa [le_div_iff₀' he] at hle
  · by_contra! hlt
    exact hno ⟨row,hp.row_eq,r,hr,he,not_lt.mp htol,hlt⟩

/-- A run without overshooting pivots keeps every right-hand side nonnegative. -/
theorem run_nonneg (stage : Stage) (budget : ℕ) {t : Tableau ℚ} (ht : t.Rectangular)
    (hn : t.Nonneg)
    (hno : ∀ u q, Event.pivot stage u q ∈ (s.run budget t).events stage → ¬ s.Overshoots u q) :
    (s.run budget t).last.Nonneg := by
  induction budget, t using s.run_induction with
  | optimal budget t _ => exact hn
  | unbounded budget t c _ => exact hn
  | exhausted t p _ => exact hn
  | pivot budget t p hv ih =>
    obtain ⟨row,hp⟩ := chosen_of_verdict hs ht hv
    rw [last_run_cons]
    refine ih (Tableau.rectangular_pivot hp.toAdmits ht)
      (hp.nonneg_pivot hs hn (hno t p (by simp [Run.events,Run.moveEvents]))) fun u q h => ?_
    refine hno u q ?_
    rw [Run.events,start_run] at h
    simp only [Run.events,Run.moveEvents,List.cons_append,List.mem_cons]
    refine .inr (.inr ?_)
    rcases List.mem_append.mp h with h | h
    · exact List.mem_append_left _ h
    · exact absurd h (by split <;> simp)

end Solver

end LinProg
