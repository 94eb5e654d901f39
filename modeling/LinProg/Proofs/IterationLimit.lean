import Mathlib.Data.ENat.Basic
import LinProg.Proofs.RegistryOrder
import LinProg.Proofs.Runs
import LinProg.Solver.Event

/-!
The limit on the pivots of a solve. Runs with different budgets agree as far as both go, so a solve
has one answer that every sufficient limit leads to, and every other limit cuts it off.
-/
namespace LinProg

namespace Solver
variable {K : Type} [Scalar K] (s : Solver K)

def limited (limit : ℕ) : Solver K := { s with maxIterations := limit }

/-- The choice of pivots does not look at the limit. -/
lemma run_limited (limit budget : ℕ) (t : Tableau K) :
    (s.limited limit).run budget t = s.run budget t := by
  induction budget, t using s.run_induction with
  | optimal budget t h => exact (s.limited limit).run_of_optimal budget h
  | unbounded budget t c h => exact (s.limited limit).run_of_unbounded budget h
  | exhausted t p h => exact (s.limited limit).run_zero h
  | pivot budget t p h ih => rw [(s.limited limit).run_succ budget h,ih]

section Budget
variable {s} {t : Tableau K} {budget budget' : ℕ}

lemma length_run_le (s : Solver K) (budget : ℕ) (t : Tableau K) :
    (s.run budget t).length ≤ budget := by
  induction budget, t using s.run_induction with
  | optimal | unbounded => exact Nat.zero_le _
  | exhausted => exact le_rfl
  | pivot budget t p _ ih => exact Nat.succ_le_succ ih

/-- Any budget that is as long as a run which was not cut off allows the same run. -/
lemma run_of_length_le (h : (s.run budget t).stop ≠ .exhausted)
    (hle : (s.run budget t).length ≤ budget') : s.run budget' t = s.run budget t := by
  induction budget, t using s.run_induction generalizing budget' with
  | optimal budget t hv => exact s.run_of_optimal budget' hv
  | unbounded budget t c hv => exact s.run_of_unbounded budget' hv
  | exhausted => contradiction
  | pivot budget t p hv ih =>
    obtain ⟨n,rfl⟩ := Nat.exists_eq_add_of_le' (Nat.succ_le_of_lt (Nat.zero_lt_of_lt hle))
    rw [s.run_succ n hv,ih h (Nat.le_of_succ_le_succ hle)]

/-- The run `r` from `t` to its end. A budget as long as `r` allows it, and a smaller one is
spent. -/
structure Ended (s : Solver K) (t : Tableau K) (r : Run K) : Prop where
  stop : r.stop ≠ .exhausted
  of_le : ∀ budget, r.length ≤ budget → s.run budget t = r
  of_lt : ∀ budget, budget < r.length → (s.run budget t).stop = .exhausted

lemma ended_run (h : (s.run budget t).stop ≠ .exhausted) : s.Ended t (s.run budget t) where
  stop := h
  of_le _ hle := run_of_length_le h hle
  of_lt n hn := by
    by_contra hstop
    have hle := s.length_run_le n t
    have hsame := run_of_length_le hstop (hle.trans (hn.le.trans (s.length_run_le budget t)))
    rw [hsame] at hn
    omega

/-- Either the pivots from a tableau come to an end or every budget is spent on them. -/
theorem exists_ended_or (s : Solver K) (t : Tableau K) :
    (∃ r, s.Ended t r) ∨ ∀ budget, (s.run budget t).stop = .exhausted := by
  by_cases h : ∃ budget, (s.run budget t).stop ≠ .exhausted
  · obtain ⟨budget,hstop⟩ := h
    exact .inl ⟨_,ended_run hstop⟩
  · push Not at h
    exact .inr h

end Budget

@[simp] lemma maxIterations_limited (limit : ℕ) : (s.limited limit).maxIterations = limit := rfl

@[simp] lemma feasibilityTolerance_limited (limit : ℕ) :
    (s.limited limit).feasibilityTolerance = s.feasibilityTolerance := rfl

end Solver

/-- How the answers depend on the limit, for limits from `first` on: those below the threshold say
that the limit was reached, and all others are the same answer. -/
structure CutOff {K α : Type} (f : ℕ → Except (SolveError K) α) (first : ℕ) (threshold : ℕ∞)
    (answer : Except (SolveError K) α) : Prop where
  ne : ∀ limit, answer ≠ .error (.iterationLimit limit)
  of_le : ∀ limit : ℕ, first ≤ limit → threshold ≤ limit → f limit = answer
  of_lt : ∀ limit : ℕ, first ≤ limit → (limit : ℕ∞) < threshold →
    f limit = .error (.iterationLimit limit)

namespace CutOff
variable {K α β : Type} {f : ℕ → Except (SolveError K) α}
  {g : ℕ → α → Except (SolveError K) β} {first spent : ℕ} {threshold : ℕ∞}

lemma of_forall {answer : Except (SolveError K) α}
    (hne : ∀ limit, answer ≠ .error (.iterationLimit limit)) (h : ∀ limit, f limit = answer) :
    CutOff f first 0 answer :=
  ⟨hne,fun limit _ _ => h limit,fun _ _ hlt => absurd hlt not_lt_zero⟩

/-- Where no limit is enough there is no answer to agree on, and any will do. -/
lemma of_never (h : ∀ limit, first ≤ limit → f limit = .error (.iterationLimit limit)) :
    CutOff f first ⊤ (.error (.unbounded .one)) :=
  ⟨nofun,fun limit _ hle => absurd (top_le_iff.mp hle) (ENat.natCast_ne_top limit),
    fun limit hfirst _ => h limit hfirst⟩

lemma bind_error {e : SolveError K} (h : CutOff f first threshold (.error e)) :
    CutOff (fun limit => f limit >>= g limit) first threshold (.error e) where
  ne limit hlimit := h.ne limit (congrArg _ (Except.error.inj hlimit))
  of_le limit hfirst hle := by
    rw [h.of_le limit hfirst hle]
    rfl
  of_lt limit hfirst hlt := by
    rw [h.of_lt limit hfirst hlt]
    rfl

/-- The second of two parts goes on from the threshold of the first. -/
lemma bind_ok {a : α} {answer : Except (SolveError K) β} (h : CutOff f first spent (.ok a))
    (h' : CutOff (g · a) spent threshold answer) (hle : (spent : ℕ∞) ≤ threshold) :
    CutOff (fun limit => f limit >>= g limit) first threshold answer where
  ne := h'.ne
  of_le limit hfirst hlimit := by
    have hspent : (spent : ℕ∞) ≤ limit := hle.trans hlimit
    rw [h.of_le limit hfirst hspent]
    exact h'.of_le limit (by exact_mod_cast hspent) hlimit
  of_lt limit hfirst hlimit := by
    rcases lt_or_ge (limit : ℕ∞) spent with hlt | hspent
    · rw [h.of_lt limit hfirst hlt]
      rfl
    · rw [h.of_le limit hfirst hspent]
      exact h'.of_lt limit (by exact_mod_cast hspent) hlimit

end CutOff

def Event.isPivot {K : Type} : Event K → Bool
  | .pivot .. => true
  | _ => false

lemma Run.countP_moveEvents {K : Type} (stage : Stage) (t : Tableau K) (moves : List (Move K)) :
    (moveEvents stage t moves).countP Event.isPivot = moves.length := by
  induction moves generalizing t with
  | nil => rfl
  | cons m moves ih =>
    rw [moveEvents,List.countP_cons_of_pos rfl,List.countP_cons_of_neg Bool.false_ne_true,ih]
    rfl

lemma Run.countP_events {K : Type} (stage : Stage) (r : Run K) :
    (r.events stage).countP Event.isPivot = r.length := by
  rw [events,List.countP_append,countP_moveEvents,length]
  cases r.stop <;> rfl

namespace Solver
variable {K : Type} [Scalar K]

def pivotCount (s : Solver K) (t : Tableau K) : ℕ := (s.events t).countP Event.isPivot

section Phases
variable {s : Solver K} {t : Tableau K} {r : Run K}

/-- Phase 1 says that the limit was reached when its run does. -/
lemma phaseOneResult_of_exhausted {limit : ℕ} (h : (s.run limit t.negateCosts).stop = .exhausted) :
    (s.limited limit).phaseOneResult ((s.limited limit).phaseOne t) =
      .error (.iterationLimit limit) := by
  simp only [phaseOne,maxIterations_limited,run_limited,h]
  rfl

/-- All limits that allow the whole run of phase 1 lead to one result. -/
lemma exists_phaseOneResult_eq (hr : s.Ended t.negateCosts r) : ∃ answer,
    (∀ limit, answer ≠ .error (.iterationLimit limit)) ∧ (∀ x, answer = .ok x → x.1 = r.length) ∧
    ∀ limit, r.length ≤ limit →
      (s.limited limit).phaseOneResult ((s.limited limit).phaseOne t) = answer := by
  have hrun : ∀ limit, r.length ≤ limit → (s.limited limit).run limit t.negateCosts = r :=
    fun limit hle => (s.run_limited limit limit _).trans (hr.of_le limit hle)
  cases hstop : r.stop with
  | exhausted => exact absurd hstop hr.stop
  | unbounded c =>
    refine ⟨.error (.unbounded .one),nofun,nofun,fun limit hle => ?_⟩
    simp only [phaseOne,maxIterations_limited,hrun limit hle,hstop]
    rfl
  | optimal =>
    by_cases hlt : s.feasibilityTolerance < Scalar.magnitude (-r.last.objectiveValue)
    · refine ⟨.error (.infeasible (-r.last.objectiveValue)),nofun,nofun,fun limit hle => ?_⟩
      simp only [phaseOne,maxIterations_limited,hrun limit hle,hstop,feasibilityTolerance_limited,
        if_pos hlt]
      rfl
    cases hremove : r.last.enterObjective.removeArtificials with
    | error name =>
      refine ⟨.error (.artificialInBasis name),nofun,nofun,fun limit hle => ?_⟩
      simp only [phaseOne,maxIterations_limited,hrun limit hle,hstop,feasibilityTolerance_limited,
        if_neg hlt,hremove]
      rfl
    | ok u =>
      refine ⟨.ok (r.length,u),nofun,fun x hx => ?_,fun limit hle => ?_⟩
      · rw [← Except.ok.inj hx]
      · simp only [phaseOne,maxIterations_limited,hrun limit hle,hstop,
          feasibilityTolerance_limited,if_neg hlt,hremove]
        rfl

/-- What comes before phase 2 is cut off by the limits below the number of its pivots. -/
lemma exists_cutOff_ready (s : Solver K) (t : Tableau K) : ∃ threshold answer,
    CutOff (fun limit => (s.limited limit).ready t) 0 threshold answer ∧
      ∀ x, answer = .ok x → threshold = x.1 := by
  cases hphase : t.phase with
  | single =>
    refine ⟨0,.ok (0,t),.of_forall nofun fun limit => ?_,fun x hx => ?_⟩
    · rw [ready,hphase]
    · rw [← Except.ok.inj hx]
      rfl
  | two =>
    simp only [ready,hphase]
    rcases s.exists_ended_or t.negateCosts with ⟨r,hr⟩ | hnever
    · obtain ⟨answer,hne,hspent,hle⟩ := exists_phaseOneResult_eq hr
      refine ⟨r.length,answer,⟨hne,fun limit _ h => hle limit (by exact_mod_cast h),
        fun limit _ h => ?_⟩,fun x hx => by rw [hspent x hx]⟩
      exact phaseOneResult_of_exhausted (hr.of_lt limit (by exact_mod_cast h))
    · exact ⟨⊤,_,.of_never fun limit _ => phaseOneResult_of_exhausted (hnever limit),nofun⟩

lemma phaseTwoResult_of_exhausted {spent limit : ℕ}
    (h : (s.run (limit-spent) t).stop = .exhausted) :
    (s.limited limit).phaseTwoResult spent ((s.limited limit).phaseTwo spent t) =
      .error (.iterationLimit limit) := by
  simp only [phaseTwo,phaseTwoResult,maxIterations_limited,run_limited,h]

lemma phaseTwoResult_ne {spent : ℕ} (h : r.stop ≠ .exhausted) (limit : ℕ) :
    s.phaseTwoResult spent r ≠ .error (.iterationLimit limit) := by
  unfold phaseTwoResult
  cases hstop : r.stop with
  | exhausted => contradiction
  | unbounded | optimal => exact nofun

lemma phaseTwoResult_limited {spent limit : ℕ} (h : r.stop ≠ .exhausted) :
    (s.limited limit).phaseTwoResult spent r = s.phaseTwoResult spent r := by
  unfold phaseTwoResult
  cases hstop : r.stop with
  | exhausted => contradiction
  | unbounded | optimal => rfl

lemma iterations_of_phaseTwoResult {spent : ℕ} {sol : Solution K}
    (h : s.phaseTwoResult spent r = .ok sol) : sol.iterations = spent+r.length := by
  unfold phaseTwoResult at h
  split at h
  case h_1 | h_2 => contradiction
  case h_3 => rw [← Except.ok.inj h]; rfl

/-- Phase 2 is cut off by the limits that leave less than the number of its pivots. -/
lemma exists_cutOff_phaseTwo (s : Solver K) (spent : ℕ) (t : Tableau K) : ∃ threshold answer,
    CutOff (fun limit => (s.limited limit).phaseTwoResult spent
        ((s.limited limit).phaseTwo spent t)) spent threshold answer ∧
      (spent : ℕ∞) ≤ threshold ∧ ∀ sol, answer = .ok sol → threshold = sol.iterations := by
  rcases s.exists_ended_or t with ⟨r,hr⟩ | hnever
  · refine ⟨(spent+r.length : ℕ),s.phaseTwoResult spent r,⟨?_,fun limit _ hle => ?_,
      fun limit hspent hlt => ?_⟩,by exact_mod_cast Nat.le_add_right .., ?_⟩
    · exact phaseTwoResult_ne hr.stop
    · have hlimit : r.length ≤ limit-spent := Nat.le_sub_of_add_le' (by exact_mod_cast hle)
      rw [phaseTwo,run_limited,maxIterations_limited,hr.of_le _ hlimit]
      exact phaseTwoResult_limited hr.stop
    · have hlimit : limit < spent+r.length := by exact_mod_cast hlt
      exact phaseTwoResult_of_exhausted (hr.of_lt _ (by omega))
    · intro sol hsol
      rw [iterations_of_phaseTwoResult hsol]
  · exact ⟨⊤,_,.of_never fun limit _ => phaseTwoResult_of_exhausted (hnever _),le_top,nofun⟩

end Phases

lemma countP_events_of_phaseOneResult {s : Solver K} {r : PhaseOne K} {x : ℕ × Tableau K}
    (h : s.phaseOneResult r = .ok x) : r.events.countP Event.isPivot = x.1 := by
  cases r with
  | unbounded | exhausted | infeasible | stuck => contradiction
  | done run restored ready =>
    rw [← Except.ok.inj h,PhaseOne.events,List.countP_append,Run.countP_events]
    rfl

lemma countP_phaseTwoEvents {s : Solver K} {spent : ℕ} {t : Tableau K} {sol : Solution K}
    (h : s.phaseTwoResult spent (s.phaseTwo spent t) = .ok sol) :
    (s.phaseTwoEvents spent t).countP Event.isPivot = (s.phaseTwo spent t).length := by
  rw [phaseTwoEvents,h,List.countP_append,Run.countP_events]
  rfl

/-- The pivots of a solve that ends with a solution are those it reports. -/
lemma pivotCount_eq {s : Solver K} {t : Tableau K} {sol : Solution K}
    (h : s.solveTableau t = .ok sol) : s.pivotCount t = sol.iterations := by
  obtain ⟨x,hready,h⟩ := Except.bind_eq_ok.mp h
  change s.phaseTwoResult x.1 (s.phaseTwo x.1 x.2) = .ok sol at h
  rw [pivotCount,events,hready,iterations_of_phaseTwoResult h]
  simp only [List.countP_append,countP_phaseTwoEvents h]
  congr 1
  cases hphase : t.phase with
  | single =>
    rw [ready,hphase] at hready
    rw [← Except.ok.inj hready]
    rfl
  | two =>
    rw [ready,hphase] at hready
    rw [← countP_events_of_phaseOneResult hready]
    exact Nat.zero_add _

lemma exists_cutOff_solveTableau (s : Solver K) (t : Tableau K) : ∃ threshold answer,
    CutOff (fun limit => (s.limited limit).solveTableau t) 0 threshold answer ∧
      ∀ sol, answer = .ok sol → threshold = sol.iterations := by
  obtain ⟨threshold,answer,h,hspent⟩ := s.exists_cutOff_ready t
  cases answer with
  | error e => exact ⟨threshold,.error e,h.bind_error,nofun⟩
  | ok x =>
    obtain rfl := hspent x rfl
    obtain ⟨threshold,answer,h',hle,hsol⟩ := s.exists_cutOff_phaseTwo x.1 x.2
    exact ⟨threshold,answer,h.bind_ok h' hle,hsol⟩

/-- The limit on the pivots only cuts a solve off. There are a threshold and an answer, and every
limit from the threshold on leads to that answer, every lower one to the error that says the limit
was reached. A solution reports the threshold as its number of pivots, and so many are made. -/
theorem exists_threshold (s : Solver K) (p : Program K) :
    ∃ (threshold : ℕ∞) (answer : Except (SolveError K) (Solution K)),
      (∀ limit, answer ≠ .error (.iterationLimit limit)) ∧
      (∀ limit : ℕ, threshold ≤ limit → (s.limited limit).solve p = answer) ∧
      (∀ limit : ℕ, (limit : ℕ∞) < threshold →
        (s.limited limit).solve p = .error (.iterationLimit limit)) ∧
      ∀ sol, answer = .ok sol → (sol.iterations : ℕ∞) = threshold ∧
        ∃ t, Tableau.build p = .ok t ∧
          ∀ limit : ℕ, threshold ≤ limit → (s.limited limit).pivotCount t = sol.iterations := by
  cases hb : Tableau.build p with
  | error m =>
    have hsolve : ∀ limit, (s.limited limit).solve p = .error (.misuse m) := fun limit => by
      rw [solve,hb]
    exact ⟨0,.error (.misuse m),nofun,fun limit _ => hsolve limit,
      fun _ hlt => absurd hlt not_lt_zero,nofun⟩
  | ok t =>
    obtain ⟨threshold,answer,h,hspent⟩ := s.exists_cutOff_solveTableau t
    have hsolve : ∀ limit, (s.limited limit).solve p = (s.limited limit).solveTableau t :=
      fun limit => by rw [solve,hb]
    simp only [hsolve]
    refine ⟨threshold,answer,h.ne,fun limit hle => h.of_le limit (Nat.zero_le _) hle,
      fun limit hlt => h.of_lt limit (Nat.zero_le _) hlt,fun sol hsol => ?_⟩
    refine ⟨(hspent sol hsol).symm,t,rfl,fun limit hle => pivotCount_eq ?_⟩
    rw [h.of_le limit (Nat.zero_le _) hle,hsol]

/-- Maximizes `3X1 + 2X2` where `X1 + X2 >= 1`, `X1 + 3X2 <= 6` and `X1 <= 3`. -/
def limitedProgram : Program Float where
  registry := .numbered "X" 2
  objective := ⟨.ofList [(1,3),(2,2)],.maximize⟩
  constraints := [⟨.ofList [(1,1),(2,1)],.atLeast,1⟩,⟨.ofList [(1,1),(2,3)],.atMost,6⟩,
    ⟨.ofList [(1,1),(2,0)],.atMost,3⟩]

/-- It takes one pivot to find a feasible point and two more to find the best one. -/
theorem exists_threshold_three : ∃ sol, sol.iterations = 3 ∧ sol.objectiveValue = 11 ∧
    (∀ limit ≥ 3, (({} : Solver Float).limited limit).solve limitedProgram = .ok sol) ∧
    ∀ limit < 3, (({} : Solver Float).limited limit).solve limitedProgram =
      .error (.iterationLimit limit) := by
  have hvalue : ((({} : Solver Float).limited 3).solve limitedProgram).toOption.map
      (fun sol => (sol.iterations,sol.objectiveValue)) = some (3,11) := by decide +kernel
  obtain ⟨sol,hsol,hparts⟩ := Option.map_eq_some_iff.mp hvalue
  obtain ⟨hiterations,hobjective⟩ := Prod.mk.inj hparts
  have hthree := Except.toOption_eq_some.mp hsol
  obtain ⟨threshold,answer,-,hreached,hbelow,hanswer⟩ :=
    exists_threshold ({} : Solver Float) limitedProgram
  have hle : threshold ≤ 3 := by
    by_contra hlt
    exact absurd (hthree.symm.trans (hbelow 3 (not_le.mp hlt))) nofun
  obtain rfl : answer = .ok sol := (hreached 3 hle).symm.trans hthree
  obtain ⟨hthreshold,-⟩ := hanswer sol rfl
  rw [hiterations] at hthreshold
  obtain rfl := hthreshold
  exact ⟨sol,hiterations,hobjective,fun limit hlimit => hreached limit (Nat.cast_le.mpr hlimit),
    fun limit hlimit => hbelow limit (Nat.cast_lt.mpr hlimit)⟩

end Solver

end LinProg
