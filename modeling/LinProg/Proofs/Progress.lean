import LinProg.Proofs.Invariant
import LinProg.Proofs.IterationLimit
import Mathlib.Data.Finset.Powerset

/-!
Progress of a run. No pivot lowers the value of the basic solution, and a pivot with a ratio other
than zero raises it. The value depends on the set of basic columns alone, so a run in which no ratio
is zero comes back to none of them, and it is shorter than there are such sets.
-/
namespace LinProg

namespace Tableau

/-- The value that a pivot gives to its column: the ratio of its row. -/
def ratio (t : Tableau ℚ) (p : Pivot) : ℚ :=
  (t.rows[p.row]?.map fun row => row.rhs / row.toRow.entry p.column).getD 0

def basicSet (t : Tableau ℚ) : Finset ℕ := t.basis.toFinset

@[simp] lemma mem_basicSet {t : Tableau ℚ} {c : ℕ} :
    c ∈ t.basicSet ↔ ∃ r ∈ t.rows, r.basic = c := by
  simp [basicSet,basis]

namespace Canonical
variable {t u : Tableau ℚ}

lemma basicSet_mem (ht : t.Canonical) :
    t.basicSet ∈ (Finset.range t.columns.size).powersetCard t.rows.length := by
  rw [Finset.mem_powersetCard]
  refine ⟨fun c hc => ?_,?_⟩
  · obtain ⟨r,hr,rfl⟩ := mem_basicSet.mp hc
    exact Finset.mem_range.mpr (ht.basic_lt r hr)
  · rw [basicSet,List.toFinset_card_of_nodup ht.basis_nodup,basis,List.length_map]

/-- The basic solution of one form satisfies any other. If that has the same basic columns, each
column is zero in the solution or in the costs, so the costs say their right-hand side of it. -/
theorem rhs_eq_of_basicSet (ht : t.Canonical) (hu : u.Canonical) (he : t.Equivalent u)
    (hb : t.basicSet = u.basicSet) : t.costs.rhs = u.costs.rhs := by
  have hsolves := ht.solves_valueOf
  have hdot : u.costs.dot t.valueOf = 0 := by
    refine Finset.sum_eq_zero fun c _ => ?_
    by_cases hc : c ∈ t.basicSet
    · rw [hb] at hc
      obtain ⟨r,hr,rfl⟩ := mem_basicSet.mp hc
      rw [hu.priced r hr,zero_mul]
    · rw [valueOf_of_not_basic fun r hr hrc => hc (mem_basicSet.mpr ⟨r,hr,hrc⟩),mul_zero]
  calc t.costs.rhs = t.score t.valueOf := ht.score_valueOf.symm
    _ = u.score t.valueOf := (he.score _ hsolves).symm
    _ = u.costs.rhs := by rw [score,Row.residual,hdot,sub_zero]

end Canonical

end Tableau

namespace Run

def tableauAt (r : Run ℚ) (i : ℕ) : Tableau ℚ :=
  (r.start :: r.moves.map Move.after).getD i r.last

def ratios (r : Run ℚ) : List ℚ :=
  List.zipWith (fun t m => t.ratio m.pivot) (r.start :: r.moves.map Move.after) r.moves

@[simp] lemma length_ratios (r : Run ℚ) : r.ratios.length = r.length := by
  simp [ratios,length]

end Run

namespace Solver
variable {s : Solver ℚ} {t : Tableau ℚ} {p : Pivot}

section Step
variable (hs : 0 ≤ s.tolerance) (ht : t.Rectangular) (hv : s.verdict t = .pivot p)
include hs ht hv

/-- A pivot raises the value by what its column gains for each unit, as often as the ratio says. -/
lemma exists_gain : 0 ≤ t.ratio p ∧ ∃ gain, 0 < gain ∧
    (t.pivot p).costs.rhs = t.costs.rhs+gain*t.ratio p := by
  obtain ⟨row,hp⟩ := chosen_of_verdict hs ht hv
  have hratio : t.ratio p = row.rhs / row.toRow.entry p.column := by
    rw [Tableau.ratio,hp.row_eq]
    rfl
  obtain ⟨-,-,hsign⟩ := s.ratio?_eq_some.mp hp.limits
  rw [← hratio] at hsign
  refine ⟨?_,-t.costs.entry p.column,?_,?_⟩
  · rcases hsign with hpos | ⟨hzero,-⟩
    · exact hpos.le
    · exact hzero.ge
  · have := hp.improves
    linarith
  · rw [Tableau.pivot_eq hp.toAdmits,hratio]
    dsimp only
    rw [Row.rhs_eliminate,Row.rhs_lead]
    ring

theorem rhs_le_pivot : t.costs.rhs ≤ (t.pivot p).costs.rhs := by
  obtain ⟨hratio,gain,hgain,heq⟩ := exists_gain hs ht hv
  have := mul_nonneg hgain.le hratio
  linarith

theorem rhs_lt_pivot (hne : t.ratio p ≠ 0) : t.costs.rhs < (t.pivot p).costs.rhs := by
  obtain ⟨hratio,gain,hgain,heq⟩ := exists_gain hs ht hv
  have := mul_pos hgain (hratio.lt_of_ne' hne)
  linarith

end Step

/-- Each pivot of a run is the verdict on the tableau in front of it, and leads to the next one. -/
lemma exists_pivot_at (s : Solver ℚ) (budget : ℕ) (t : Tableau ℚ) {i : ℕ}
    (hi : i < (s.run budget t).length) :
    ∃ p, s.verdict ((s.run budget t).tableauAt i) = .pivot p ∧
      (s.run budget t).tableauAt (i+1) = ((s.run budget t).tableauAt i).pivot p ∧
      (s.run budget t).ratios[i]? = some (((s.run budget t).tableauAt i).ratio p) := by
  induction budget, t using s.run_induction generalizing i with
  | optimal | unbounded | exhausted => exact absurd hi (Nat.not_lt_zero i)
  | pivot budget t p hv ih =>
    have hstart := s.start_run budget (t.pivot p)
    have hlast := s.last_run_cons budget t (t.pivot p) p (s.run budget (t.pivot p)).stop
    generalize s.run budget (t.pivot p) = r at *
    cases i with
    | zero => exact ⟨p,hv,rfl,rfl⟩
    | succ i =>
      obtain ⟨q,hq,hnext,hratio⟩ := ih (Nat.lt_of_succ_lt_succ hi)
      have hat : ∀ j, (⟨t,⟨p,t.pivot p⟩::r.moves,r.stop⟩ : Run ℚ).tableauAt (j+1) =
          r.tableauAt j := by
        intro j
        rw [Run.tableauAt,Run.tableauAt,hlast,hstart]
        rfl
      have hratios : (⟨t,⟨p,t.pivot p⟩::r.moves,r.stop⟩ : Run ℚ).ratios[i+1]? = r.ratios[i]? := by
        rw [Run.ratios,Run.ratios,hstart]
        rfl
      rw [hat,hat,hratios]
      exact ⟨q,hq,hnext,hratio⟩

lemma tableauAt_zero (s : Solver ℚ) (budget : ℕ) (t : Tableau ℚ) :
    (s.run budget t).tableauAt 0 = t := s.start_run budget t

lemma length_of_exhausted {budget : ℕ} (h : (s.run budget t).stop = .exhausted) :
    (s.run budget t).length = budget := by
  induction budget, t using s.run_induction with
  | optimal | unbounded => contradiction
  | exhausted => rfl
  | pivot budget t p _ ih => exact congrArg (·+1) (ih h)

section Run
variable (hs : 0 ≤ s.tolerance) (ht : t.Canonical) {budget : ℕ}
include hs ht

/-- All tableaux of a run are forms of the first one, with as many rows. -/
lemma form_tableauAt {i : ℕ} (hi : i ≤ (s.run budget t).length) :
    ((s.run budget t).tableauAt i).Canonical ∧ t.Equivalent ((s.run budget t).tableauAt i) ∧
      ((s.run budget t).tableauAt i).rows.length = t.rows.length := by
  induction i with
  | zero =>
    rw [tableauAt_zero]
    exact ⟨ht,.refl t,rfl⟩
  | succ i ih =>
    obtain ⟨hc,he,hrows⟩ := ih (Nat.le_of_succ_le hi)
    obtain ⟨p,hv,hnext,-⟩ := s.exists_pivot_at budget t hi
    obtain ⟨hc',he'⟩ := canonical_of_verdict hs hc hv
    rw [hnext]
    exact ⟨hc',he.trans he',(Tableau.length_rows_pivot _ p).trans hrows⟩

/-- The step from one tableau of a run to the next. -/
lemma rhs_step {i : ℕ} (hi : i < (s.run budget t).length) :
    ((s.run budget t).tableauAt i).costs.rhs ≤ ((s.run budget t).tableauAt (i+1)).costs.rhs ∧
      ((s.run budget t).ratios[i]? ≠ some 0 →
        ((s.run budget t).tableauAt i).costs.rhs <
          ((s.run budget t).tableauAt (i+1)).costs.rhs) := by
  obtain ⟨p,hv,hnext,hratio⟩ := s.exists_pivot_at budget t hi
  have hrect := (form_tableauAt hs ht hi.le).1.toRectangular
  rw [hnext,hratio]
  exact ⟨rhs_le_pivot hs hrect hv,fun hne => rhs_lt_pivot hs hrect hv fun h0 => hne (by rw [h0])⟩

lemma rhs_mono {i j : ℕ} (hij : i ≤ j) (hj : j ≤ (s.run budget t).length) :
    ((s.run budget t).tableauAt i).costs.rhs ≤ ((s.run budget t).tableauAt j).costs.rhs := by
  induction j, hij using Nat.le_induction with
  | base => exact le_rfl
  | succ j _ ih => exact (ih (Nat.le_of_succ_le hj)).trans (rhs_step hs ht hj).1

/-- Between two tableaux with the same basic columns no pivot gains anything. -/
theorem ratio_eq_zero_of_basicSet {i j : ℕ} (hj : j ≤ (s.run budget t).length)
    (hb : ((s.run budget t).tableauAt i).basicSet = ((s.run budget t).tableauAt j).basicSet)
    {k : ℕ} (hik : i ≤ k) (hkj : k < j) : (s.run budget t).ratios[k]? = some 0 := by
  have hk := hkj.trans_le hj
  obtain ⟨hci,hei,-⟩ := form_tableauAt hs ht (hik.trans hk.le)
  obtain ⟨hcj,hej,-⟩ := form_tableauAt hs ht hj
  have hsame := hci.rhs_eq_of_basicSet hcj (hei.symm.trans hej) hb
  by_contra hne
  have := (rhs_step hs ht hk).2 hne
  have := rhs_mono hs ht hik hk.le
  have := rhs_mono hs ht hkj hj
  linarith

/-- Without ratios of zero all the sets of basic columns are different, so there is a set for every
tableau of the run. -/
theorem length_lt_choose (hne : (0 : ℚ) ∉ (s.run budget t).ratios) :
    (s.run budget t).length < t.columns.size.choose t.rows.length := by
  have hmem : ∀ i ∈ Finset.range ((s.run budget t).length+1),
      ((s.run budget t).tableauAt i).basicSet ∈
        (Finset.range t.columns.size).powersetCard t.rows.length := by
    intro i hi
    obtain ⟨hc,he,hrows⟩ := form_tableauAt hs ht (Finset.mem_range_succ_iff.mp hi)
    rw [← hrows,← he.columns]
    exact hc.basicSet_mem
  have hdistinct : ∀ i j, i < j → j ≤ (s.run budget t).length →
      ((s.run budget t).tableauAt i).basicSet ≠ ((s.run budget t).tableauAt j).basicSet :=
    fun i j hij hj hb =>
      hne (List.mem_of_getElem? (ratio_eq_zero_of_basicSet hs ht hj hb le_rfl hij))
  have hinj : Set.InjOn (fun i => ((s.run budget t).tableauAt i).basicSet)
      (Finset.range ((s.run budget t).length+1)) := by
    intro i hi j hj hb
    rw [Finset.mem_coe,Finset.mem_range_succ_iff] at hi hj
    rcases lt_trichotomy i j with hij | rfl | hji
    · exact absurd hb (hdistinct i j hij hj)
    · rfl
    · exact absurd hb.symm (hdistinct j i hji hi)
  have hcard := Finset.card_le_card_of_injOn _ hmem hinj
  rwa [Finset.card_range,Finset.card_powersetCard,Finset.card_range] at hcard

end Run

section Limit
variable {prog : Program ℚ}

lemma mem_history_negateCosts (s : Solver ℚ) (h2 : t.phase = .two) :
    ⟨.phaseOne,t.negateCosts⟩ ∈ s.history t := by
  have hstart : (s.firstRun t).start = t.negateCosts := s.start_run _ _
  have hmem := s.snapshots_firstRun_subset h2 (List.mem_cons_self ..)
  rwa [hstart] at hmem

/-- The budget is spent in the run of a phase. -/
lemma ready_eq_iterationLimit {limit : ℕ} (h : s.ready t = .error (.iterationLimit limit)) :
    t.phase = .two ∧ (s.firstRun t).stop = .exhausted := by
  obtain ⟨h2,r,hends,hr⟩ := ready_eq_error h
  cases hends with
  | exhausted hstop => exact ⟨h2,hstop⟩
  | unbounded | infeasible | stuck | done => cases hr

lemma phaseTwoResult_eq_iterationLimit {run : Run ℚ} {limit : ℕ}
    (h : s.phaseTwoResult spent run = .error (.iterationLimit limit)) : run.stop = .exhausted := by
  unfold phaseTwoResult at h
  split at h
  case h_1 => cases h
  case h_2 hstop => exact hstop
  case h_3 => cases h

/-- A phase starts from the tableau `u` when `spent` pivots have been made. -/
def Starts (s : Solver ℚ) (t : Tableau ℚ) (spent : ℕ) (u : Tableau ℚ) : Prop :=
  t.phase = .two ∧ spent = 0 ∧ u = t.negateCosts ∨ s.ready t = .ok (spent,u)

/-- A solve that reports the limit has a run, in one of its phases, that spent what was left. -/
lemma exists_exhausted {limit : ℕ} (hb : Tableau.build prog = .ok t)
    (h : s.solve prog = .error (.iterationLimit limit)) : ∃ a ∈ s.history t, ∃ spent,
      s.Starts t spent a.tableau ∧
        (s.run (s.maxIterations-spent) a.tableau).stop = .exhausted := by
  rcases solve_eq_error h with ⟨m,hm⟩ | ⟨t',hb',hr | ⟨spent,u,hr,hu⟩⟩
  · contradiction
  · obtain rfl := Except.ok.inj (hb'.symm.trans hb)
    obtain ⟨h2,hstop⟩ := ready_eq_iterationLimit hr
    exact ⟨_,s.mem_history_negateCosts h2,0,.inl ⟨h2,rfl,rfl⟩,hstop⟩
  · obtain rfl := Except.ok.inj (hb'.symm.trans hb)
    obtain ⟨a,ha,rfl⟩ := exists_mem_history_of_ready hr
    exact ⟨a,ha,spent,.inr hr,phaseTwoResult_eq_iterationLimit hu⟩

/-- In a run from any tableau of a solve no pivot lowers the value, and one with a ratio other than
zero raises it; between two tableaux with the same basic columns all ratios are zero. So a run
without ratios of zero is shorter than there are sets of as many columns as rows, and it does not
spend a budget of that size. A solve reports its limit only for a run that spent what was left. -/
theorem history_progress (hs : 0 ≤ s.tolerance) (ho : prog.registry.Ordered)
    (hb : Tableau.build prog = .ok t) :
    (∀ a ∈ s.history t, ∀ budget,
      let r := s.run budget a.tableau
      (∀ i < r.length, (r.tableauAt i).costs.rhs ≤ (r.tableauAt (i+1)).costs.rhs ∧
        (r.ratios[i]? ≠ some 0 →
          (r.tableauAt i).costs.rhs < (r.tableauAt (i+1)).costs.rhs)) ∧
      (∀ i j, j ≤ r.length → (r.tableauAt i).basicSet = (r.tableauAt j).basicSet →
        ∀ k, i ≤ k → k < j → r.ratios[k]? = some 0) ∧
      (0 ∉ r.ratios → r.length < a.tableau.columns.size.choose a.tableau.rows.length ∧
        (a.tableau.columns.size.choose a.tableau.rows.length ≤ budget → r.stop ≠ .exhausted))) ∧
    ∀ limit, s.solve prog = .error (.iterationLimit limit) → ∃ a ∈ s.history t, ∃ spent,
      s.Starts t spent a.tableau ∧
        (s.run (s.maxIterations-spent) a.tableau).stop = .exhausted := by
  refine ⟨fun a ha budget => ?_,fun _ h => exists_exhausted hb h⟩
  have hc := history_canonical (Tableau.standardForm_of_build ho hb) hs a ha
  refine ⟨fun i hi => rhs_step hs hc hi,?_,fun hne => ?_⟩
  · exact fun i j hj hsame k hik hkj => ratio_eq_zero_of_basicSet hs hc hj hsame hik hkj
  · have hlt := length_lt_choose hs hc hne
    refine ⟨hlt,fun hle hstop => ?_⟩
    rw [length_of_exhausted hstop] at hlt
    exact hle.not_gt hlt

/-- Phase 1 of the staged program has no ratio of zero. -/
theorem history_progress_staged : ∃ t, Tableau.build stagedProgram = .ok t ∧
    ∃ a ∈ (exact 100).history t, ((exact 100).run 100 a.tableau).ratios = [1,1/2] ∧
      ((exact 100).run 100 a.tableau).length < 20 ∧
      ((exact 100).run 100 a.tableau).stop ≠ .exhausted := by
  have hvalue : ((Tableau.build stagedProgram).toOption.map fun t =>
      (t.phase,t.columns.size,t.rows.length,((exact 100).run 100 t.negateCosts).ratios)) =
      some (.two,6,3,[1,1/2]) := by decide +kernel
  obtain ⟨t,ht,heq⟩ := Option.map_eq_some_iff.mp hvalue
  simp only [Prod.mk.injEq] at heq
  obtain ⟨hphase,hcolumns,hrows,hratios⟩ := heq
  have hb := Except.toOption_eq_some.mp ht
  have hmem := (exact 100).mem_history_negateCosts hphase
  obtain ⟨-,-,hbound⟩ :=
    (history_progress le_rfl covered_stagedProgram.ordered hb).1 _ hmem 100
  obtain ⟨hlt,hstop⟩ := hbound (by rw [hratios]; norm_num)
  have hchoose : t.negateCosts.columns.size.choose t.negateCosts.rows.length = 20 := by
    change t.columns.size.choose t.rows.length = 20
    rw [hcolumns,hrows]
    rfl
  rw [hchoose] at hlt hstop
  exact ⟨t,hb,_,hmem,hratios,hlt,hstop (by norm_num)⟩

end Limit

end Solver

end LinProg
