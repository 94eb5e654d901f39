import LinProg.Problem
import LinProg.Proofs.Feasible
import LinProg.Proofs.Reading

/-!
Programs that come from problems. Reading an expression starts from an entry 0 for every variable,
so each expression of the program mentions all of them.
-/
namespace LinProg

namespace Problem

/-- The parts of a program are what was read from the texts of the problem, over variables with
numbered names. -/
structure ReadsAs {K : Type} [Scalar K] (problem : Problem K) (stem : String) (p : Program K) :
    Prop where
  registry : p.registry = Registry.numbered stem problem.variableCount
  objective : Formula.read problem.objective p.registry = .ok p.objective.equation
  direction : p.objective.direction = problem.direction
  constraints : List.Forall₂ (fun (c : Condition K) (c' : Constraint K) =>
    Formula.read c.lhs p.registry = .ok c'.equation ∧ c'.relation = c.relation ∧ c'.bound = c.rhs)
    problem.constraints p.constraints

section Parts
variable {K : Type} [Scalar K] {problem : Problem K} {stem : String} {p : Program K} {r : Registry}

lemma readAt_eq_ok {location : Location} {text : String} {e : Equation K}
    (h : readAt location text r = .ok e) : Formula.read text r = .ok e := by
  unfold readAt at h
  cases hread : (Formula.read text r : Except _ (Equation K)) with
  | error _ =>
    rw [hread] at h
    contradiction
  | ok e' =>
    rw [hread] at h
    rw [Except.ok.inj h]

lemma readConditions_eq_ok {number : ℕ} {conditions : List (Condition K)}
    {constraints : List (Constraint K)} (h : readConditions r number conditions = .ok constraints) :
    List.Forall₂ (fun (c : Condition K) (c' : Constraint K) =>
      Formula.read c.lhs r = .ok c'.equation ∧ c'.relation = c.relation ∧ c'.bound = c.rhs)
      conditions constraints := by
  induction conditions generalizing number constraints with
  | nil =>
    obtain rfl : [] = constraints := Except.ok.inj h
    exact .nil
  | cons c conditions ih =>
    obtain ⟨e,he,h⟩ := Except.bind_eq_ok.mp h
    obtain ⟨rest,hrest,h⟩ := Except.bind_eq_ok.mp h
    obtain rfl := Except.ok.inj h
    exact .cons ⟨readAt_eq_ok he,rfl,rfl⟩ (ih hrest)

theorem readsAs_of_compile (h : problem.compile stem = .ok p) : problem.ReadsAs stem p := by
  obtain ⟨-,-,h⟩ := Except.bind_eq_ok.mp h
  obtain ⟨equation,he,h⟩ := Except.bind_eq_ok.mp h
  obtain ⟨constraints,hc,h⟩ := Except.bind_eq_ok.mp h
  obtain rfl := Except.ok.inj h
  exact ⟨rfl,readAt_eq_ok he,rfl,readConditions_eq_ok hc⟩

namespace ReadsAs
variable (h : problem.ReadsAs stem p)
include h

lemma objective_contains : ∀ v ∈ p.registry.members,
    p.objective.equation.contains v.index = true := fun v hv =>
  (Formula.contains_read h.objective v.index).mpr ⟨v,hv,rfl⟩

lemma exists_reading {c : Constraint K} (hc : c ∈ p.constraints) :
    ∃ text, Formula.read text p.registry = .ok c.equation := by
  obtain ⟨i,hi,rfl⟩ := List.getElem_of_mem hc
  obtain ⟨hread,-⟩ := h.constraints.get (h.constraints.length_eq ▸ hi) hi
  exact ⟨_,hread⟩

lemma constraint_contains : ∀ c ∈ p.constraints, ∀ v ∈ p.registry.members,
    c.equation.contains v.index = true := by
  intro c hc v hv
  obtain ⟨text,hread⟩ := h.exists_reading hc
  exact (Formula.contains_read hread v.index).mpr ⟨v,hv,rfl⟩

end ReadsAs

end Parts

/-- A compiled program covers its variables. -/
theorem covered_of_compile {problem : Problem ℚ} {stem : String} {p : Program ℚ}
    (h : problem.compile stem = .ok p) : p.Covered := by
  have hparts := readsAs_of_compile h
  refine ⟨?_,fun v hv => ?_,hparts.objective_contains⟩
  · rw [hparts.registry]
    exact Registry.ordered_numbered _ _
  · rw [hparts.registry] at hv
    obtain ⟨i,-,rfl⟩ := List.mem_map.mp hv
    rfl

end Problem

end LinProg
