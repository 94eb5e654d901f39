import Mathlib.Logic.Relation
import LinProg.Proofs.Outcomes
import LinProg.Solver.Event
import LinProg.Solver.History

/-!
The history of a solve as a sequence of operations: the costs are negated, pivots are made, the
objective is restored, the artificial columns are removed. What holds of the first tableau and is
preserved by each operation holds of every tableau in the history, and so of every tableau that the
log of the solve shows.
-/
namespace LinProg

def Station.ofPhase : Phase → Station
  | .single => .singlePhase
  | .two => .phaseTwo

def Snapshot.first (t : Tableau ℚ) : Snapshot ℚ :=
  match t.phase with
  | .single => ⟨.singlePhase,t⟩
  | .two => ⟨.built,t⟩

lemma Run.getLast?_snapshots {K : Type} (r : Run K) (station : Station) :
    (r.snapshots station).getLast? = some ⟨station,r.last⟩ := by
  rw [snapshots,last,List.getLast?_cons,List.getLast?_map]
  cases r.moves.getLast? <;> rfl

lemma Run.last_mem_snapshots {K : Type} (r : Run K) (station : Station) :
    ⟨station,r.last⟩ ∈ r.snapshots station := List.mem_of_getLast? (r.getLast?_snapshots station)

namespace Solver

/-- What each operation of a solve preserves, for any arithmetic. -/
structure Preserves {K : Type} [Scalar K] (s : Solver K) (P : Snapshot K → Prop) : Prop where
  negate : ∀ t, P ⟨.built,t⟩ → P ⟨.phaseOne,t.negateCosts⟩
  pivot : ∀ (station : Station) t p, station.pivots = true → s.verdict t = .pivot p →
    P ⟨station,t⟩ → P ⟨station,t.pivot p⟩
  restore : ∀ t, s.verdict t = .optimal →
    ¬ s.feasibilityTolerance < Scalar.magnitude (-t.objectiveValue) →
    P ⟨.phaseOne,t⟩ → P ⟨.restored,t.enterObjective⟩
  remove : ∀ t u, t.removeArtificials = .ok u → P ⟨.restored,t⟩ → P ⟨.phaseTwo,u⟩

namespace Preserves
variable {K : Type} [Scalar K] {s : Solver K} {P : Snapshot K → Prop} {t : Tableau K}
  (hP : s.Preserves P)
include hP

lemma run {station : Station} (hstation : station.pivots = true) (ht : P ⟨station,t⟩) (budget : ℕ) :
    P ⟨station,(s.run budget t).last⟩ ∧ ∀ e ∈ (s.run budget t).snapshots station, P e := by
  obtain ⟨hlast,hmoves⟩ := s.run_preserves (P := fun u => P ⟨station,u⟩)
    (fun u p hu hv => hP.pivot station u p hstation hv hu) budget ht
  refine ⟨hlast,fun e he => ?_⟩
  rw [Run.snapshots,start_run] at he
  rcases List.mem_cons.mp he with rfl | he
  · exact ht
  · obtain ⟨m,hm,rfl⟩ := List.mem_map.mp he
    exact hmoves m hm

/-- Phase 1 preserves it as far as it goes, and phase 2 starts with it. -/
lemma phaseOne (ht : P ⟨.built,t⟩) : (∀ e ∈ (s.phaseOne t).snapshots, P e) ∧
    ∀ x, s.phaseOneResult (s.phaseOne t) = .ok x → P ⟨.phaseTwo,x.2⟩ := by
  obtain ⟨hlast,hrun⟩ := hP.run rfl (hP.negate t ht) s.maxIterations
  unfold Solver.phaseOne
  dsimp only
  split
  case h_1 | h_2 => exact ⟨hrun,nofun⟩
  case h_3 hstop =>
    split
    case isTrue => exact ⟨hrun,nofun⟩
    case isFalse hzero =>
      have hrestored := hP.restore _ (s.verdict_of_optimal hstop) hzero hlast
      have happend : ∀ e ∈ (s.run s.maxIterations t.negateCosts).snapshots .phaseOne ++
          [⟨.restored,(s.run s.maxIterations t.negateCosts).last.enterObjective⟩], P e := by
        intro e he
        rcases List.mem_append.mp he with he | he
        · exact hrun e he
        · obtain rfl := List.mem_singleton.mp he
          exact hrestored
      split
      case h_1 => exact ⟨happend,nofun⟩
      case h_2 u hu =>
        refine ⟨happend,fun x hx => ?_⟩
        rw [← Except.ok.inj hx]
        exact hP.remove _ u hu hrestored

/-- It holds all along a history if it does at the beginning. -/
theorem history (hsingle : t.phase = .single → P ⟨.singlePhase,t⟩)
    (htwo : t.phase = .two → P ⟨.built,t⟩) : ∀ e ∈ s.history t, P e := by
  intro e he
  unfold Solver.history at he
  cases hphase : t.phase with
  | single =>
    rw [hphase] at he
    exact (hP.run rfl (hsingle hphase) _).2 e he
  | two =>
    rw [hphase] at he
    obtain ⟨hone,hready⟩ := hP.phaseOne (htwo hphase)
    rcases List.mem_append.mp he with he | he
    · rcases List.mem_cons.mp he with rfl | he
      · exact htwo hphase
      · exact hone e he
    · split at he
      case h_1 spent u hu =>
        rw [ready,hphase] at hu
        exact (hP.run rfl (hready _ hu) _).2 e he
      case h_2 => contradiction

end Preserves

section Members
variable {K : Type} [Scalar K] {s : Solver K} {t u : Tableau K}

/-- The last run is part of the history. -/
lemma snapshots_subset {spent : ℕ} (h : s.ready t = .ok (spent,u)) :
    (s.phaseTwo spent u).snapshots (.ofPhase t.phase) ⊆ s.history t := by
  unfold history
  cases hphase : t.phase with
  | single =>
    rw [ready_of_single s hphase] at h
    obtain ⟨rfl,rfl⟩ := Prod.mk.inj (Except.ok.inj h)
    exact List.Subset.refl _
  | two =>
    rw [h]
    exact List.subset_append_right _ _

lemma exists_mem_history_of_ready {spent : ℕ} (h : s.ready t = .ok (spent,u)) :
    ∃ a ∈ s.history t, a.tableau = u :=
  ⟨_,snapshots_subset h (List.mem_cons_self ..),s.start_run _ u⟩

lemma exists_mem_history_first (s : Solver K) (t : Tableau K) :
    ∃ a ∈ s.history t, a.tableau = t := by
  cases hphase : t.phase with
  | single => exact exists_mem_history_of_ready (ready_of_single s hphase)
  | two =>
    refine ⟨⟨.built,t⟩,?_,rfl⟩
    rw [history,hphase]
    exact List.mem_append_left _ (List.mem_cons_self ..)

end Members

inductive Step (s : Solver ℚ) : Snapshot ℚ → Snapshot ℚ → Prop
  | negate (t : Tableau ℚ) : s.Step ⟨.built,t⟩ ⟨.phaseOne,t.negateCosts⟩
  | pivot {station : Station} (hstation : station.pivots = true) (t : Tableau ℚ) (p : Pivot)
      (hverdict : s.verdict t = .pivot p) : s.Step ⟨station,t⟩ ⟨station,t.pivot p⟩
  | restore (t : Tableau ℚ) (hverdict : s.verdict t = .optimal)
      (hzero : |t.costs.rhs| ≤ s.feasibilityTolerance) :
      s.Step ⟨.phaseOne,t⟩ ⟨.restored,t.enterObjective⟩
  | remove (t u : Tableau ℚ) (hremove : t.removeArtificials = .ok u) :
      s.Step ⟨.restored,t⟩ ⟨.phaseTwo,u⟩

def Reaches (s : Solver ℚ) : Snapshot ℚ → Snapshot ℚ → Prop := Relation.ReflTransGen s.Step

variable {s : Solver ℚ} {t : Tableau ℚ}

lemma preserves_reaches (s : Solver ℚ) (a : Snapshot ℚ) : s.Preserves (s.Reaches a) where
  negate t h := h.tail (.negate t)
  pivot _ t p hstation hverdict h := h.tail (.pivot hstation t p hverdict)
  restore t hverdict hzero h := h.tail (.restore t hverdict (by
    rwa [Scalar.magnitude_eq_abs,Tableau.objectiveValue,abs_neg,not_lt] at hzero))
  remove t u hremove h := h.tail (.remove t u hremove)

/-- Every tableau of a history is reached from the first one by the operations of the solve. -/
theorem reaches_of_mem_history : ∀ e ∈ s.history t, s.Reaches (.first t) e := by
  refine (s.preserves_reaches _).history (fun hphase => ?_) fun hphase => ?_
  · rw [Snapshot.first,hphase]
    exact .refl
  · rw [Snapshot.first,hphase]
    exact .refl

/-- What every operation preserves holds all along a history. -/
theorem history_induction {P : Snapshot ℚ → Prop} (first : P (.first t))
    (step : ∀ a b, s.Step a b → P a → P b) : ∀ e ∈ s.history t, P e := by
  intro e he
  have hreach := reaches_of_mem_history e he
  clear he
  induction hreach with
  | refl => exact first
  | tail _ hstep ih => exact step _ _ hstep ih

end Solver

section Log
variable {s : Solver ℚ} {t u : Tableau ℚ}

/-- The tableau that a step of the log shows. -/
def Event.shown? : Event ℚ → Option (Tableau ℚ)
  | .initial t | .pivoted t | .restored t | .removed t => some t
  | .compiled _ | .built _ | .pivot .. | .optimal .. | .unbounded .. | .infeasible _
  | .solved .. => none

lemma Run.exists_move_of_shown {stage : Stage} {start : Tableau ℚ} {moves : List (Move ℚ)}
    {e : Event ℚ} (he : e ∈ Run.moveEvents stage start moves) (hu : e.shown? = some u) :
    ∃ m ∈ moves, m.after = u := by
  induction moves generalizing start with
  | nil => contradiction
  | cons m moves ih =>
    rcases List.mem_cons.mp he with rfl | he
    · contradiction
    rcases List.mem_cons.mp he with rfl | he
    · exact ⟨m,by simp,Option.some.inj hu⟩
    · obtain ⟨m',hm',rfl⟩ := ih he
      exact ⟨m',List.mem_cons_of_mem _ hm',rfl⟩

lemma Run.exists_snapshot_of_shown {stage : Stage} {r : Run ℚ} {e : Event ℚ}
    (he : e ∈ r.events stage) (hu : e.shown? = some u) (station : Station) :
    ∃ a ∈ r.snapshots station, a.tableau = u := by
  rcases List.mem_append.mp he with he | he
  · obtain ⟨m,hm,rfl⟩ := exists_move_of_shown he hu
    exact ⟨⟨station,m.after⟩,List.mem_cons_of_mem _ (List.mem_map_of_mem hm),rfl⟩
  · split at he
    case h_1 =>
      obtain rfl := List.mem_singleton.mp he
      contradiction
    case h_2 =>
      obtain rfl := List.mem_singleton.mp he
      contradiction
    case h_3 => contradiction

/-- Phase 1 shows its own tableaux, and the one that phase 2 starts from. -/
lemma PhaseOne.exists_snapshot_of_shown {r : PhaseOne ℚ} {e : Event ℚ} (he : e ∈ r.events)
    (hu : e.shown? = some u) : (∃ a ∈ r.snapshots, a.tableau = u) ∨
      ∃ spent, s.phaseOneResult r = .ok (spent,u) := by
  cases r with
  | unbounded run | exhausted run => exact .inl (run.exists_snapshot_of_shown he hu _)
  | infeasible run residual =>
    rcases List.mem_append.mp he with he | he
    · exact .inl (run.exists_snapshot_of_shown he hu _)
    · obtain rfl := List.mem_singleton.mp he
      contradiction
  | stuck run restored name =>
    rcases List.mem_append.mp he with he | he
    · obtain ⟨a,ha,rfl⟩ := run.exists_snapshot_of_shown he hu .phaseOne
      exact .inl ⟨a,List.mem_append_left _ ha,rfl⟩
    · obtain rfl := List.mem_singleton.mp he
      exact .inl ⟨⟨.restored,restored⟩,by simp [snapshots],Option.some.inj hu⟩
  | done run restored ready =>
    rcases List.mem_append.mp he with he | he
    · obtain ⟨a,ha,rfl⟩ := run.exists_snapshot_of_shown he hu .phaseOne
      exact .inl ⟨a,List.mem_append_left _ ha,rfl⟩
    rcases List.mem_cons.mp he with rfl | he
    · exact .inl ⟨⟨.restored,restored⟩,by simp [snapshots],Option.some.inj hu⟩
    · obtain rfl := List.mem_singleton.mp he
      obtain rfl := Option.some.inj hu
      exact .inr ⟨run.length,rfl⟩

namespace Solver

/-- The run of phase 1 is part of the history. -/
lemma snapshots_firstRun_subset (s : Solver ℚ) (h2 : t.phase = .two) :
    (s.firstRun t).snapshots .phaseOne ⊆ s.history t := by
  have hsub : (s.firstRun t).snapshots .phaseOne ⊆ (s.phaseOne t).snapshots := by
    have hends := s.ends_phaseOne t
    generalize s.phaseOne t = r at hends
    cases hends with
    | unbounded | exhausted | infeasible => exact List.Subset.refl _
    | stuck | done => exact List.subset_append_left _ _
  rw [history,h2]
  exact fun e he => List.mem_append_left _ (List.mem_cons_of_mem _ (hsub he))

/-- The history ends with the last tableau of phase 2. -/
lemma getLast?_history_of_ready {spent : ℕ} (h : s.ready t = .ok (spent,u)) :
    (s.history t).getLast? = some ⟨.ofPhase t.phase,(s.phaseTwo spent u).last⟩ := by
  unfold history
  cases hphase : t.phase with
  | single =>
    rw [ready_of_single s hphase] at h
    obtain ⟨rfl,rfl⟩ := Prod.mk.inj (Except.ok.inj h)
    exact Run.getLast?_snapshots _ _
  | two =>
    rw [h]
    dsimp only
    rw [List.getLast?_append,Run.getLast?_snapshots]
    rfl

/-- Every tableau that the log of a solve shows is in its history. -/
theorem exists_mem_history_of_shown {e : Event ℚ} (he : e ∈ s.events t)
    (hu : e.shown? = some u) : ∃ a ∈ s.history t, a.tableau = u := by
  rcases List.mem_append.mp he with he | he
  · rcases List.mem_append.mp he with he | he
    · have hmem : e = .built t ∨ e = .initial t := by simpa using he
      rcases hmem with rfl | rfl
      · contradiction
      · obtain rfl := Option.some.inj hu
        exact s.exists_mem_history_first t
    · split at he
      case h_1 => contradiction
      case h_2 hphase =>
        rcases PhaseOne.exists_snapshot_of_shown (s := s) he hu with ⟨a,ha,rfl⟩ | ⟨spent,hready⟩
        · refine ⟨a,?_,rfl⟩
          rw [history,hphase]
          exact List.mem_append_left _ (List.mem_cons_of_mem _ ha)
        · exact exists_mem_history_of_ready ((ready_of_two s hphase).trans hready)
  · split at he
    case h_1 spent v hready =>
      rcases List.mem_append.mp he with he | he
      · obtain ⟨a,ha,rfl⟩ := Run.exists_snapshot_of_shown he hu (.ofPhase t.phase)
        exact ⟨a,snapshots_subset hready ha,rfl⟩
      · split at he
        case h_1 =>
          obtain rfl := List.mem_singleton.mp he
          contradiction
        case h_2 => contradiction
    case h_2 => contradiction

end Solver

end Log

end LinProg
