import LinProg.Proofs.Points

/-!
Feasible points of a program over the rationals, exactly and up to an error. A constraint is read
through its margin, which says how far its left-hand side is from the bound.
-/
namespace LinProg

def Direction.Better (d : Direction) (a b : ℚ) : Prop :=
  match d with
  | .maximize => b < a
  | .minimize => a < b

namespace Constraint

def Holds (c : Constraint ℚ) (y : ℕ → ℚ) : Prop :=
  match c.relation with
  | .atMost => c.equation.evaluate y ≤ c.bound
  | .atLeast => c.bound ≤ c.equation.evaluate y
  | .equal => c.equation.evaluate y = c.bound

def HoldsWithin (ε : ℚ) (c : Constraint ℚ) (y : ℕ → ℚ) : Prop :=
  match c.relation with
  | .atMost => c.equation.evaluate y ≤ c.bound+ε
  | .atLeast => c.bound-ε ≤ c.equation.evaluate y
  | .equal => |c.equation.evaluate y-c.bound| ≤ ε

/-- How far the left-hand side is from the bound, counted towards the side that is allowed. -/
def margin (c : Constraint ℚ) (y : ℕ → ℚ) : ℚ :=
  match c.relation with
  | .atMost | .equal => c.bound-c.equation.evaluate y
  | .atLeast => c.equation.evaluate y-c.bound

lemma holds_iff_margin {c : Constraint ℚ} {y : ℕ → ℚ} :
    c.Holds y ↔ 0 ≤ c.margin y ∧ (c.relation = .equal → c.margin y = 0) := by
  unfold Holds margin
  cases c.relation with
  | atMost => simp
  | atLeast => simp
  | equal =>
    constructor
    · intro h
      simp [h]
    · rintro ⟨-,h⟩
      exact (sub_eq_zero.mp (h rfl)).symm

lemma holdsWithin_iff_margin {ε : ℚ} {c : Constraint ℚ} {y : ℕ → ℚ} :
    c.HoldsWithin ε y ↔ -ε ≤ c.margin y ∧ (c.relation = .equal → c.margin y ≤ ε) := by
  unfold HoldsWithin margin
  cases c.relation with
  | atMost => simp only [reduceCtorEq,false_imp_iff,and_true]; constructor <;> intro h <;> linarith
  | atLeast => simp only [reduceCtorEq,false_imp_iff,and_true]; constructor <;> intro h <;> linarith
  | equal =>
    simp only [forall_const]
    rw [abs_sub_comm]
    exact abs_le

end Constraint

namespace Program

/-- All variables are decisions, in the order of their indices, and the objective mentions each of
them. A constraint that leaves one out ends a solve before its first pivot. -/
structure Covered (p : Program ℚ) : Prop where
  ordered : p.registry.Ordered
  decisions : ∀ v ∈ p.registry.members, v.kind = .decision
  objective : ∀ v ∈ p.registry.members, p.objective.equation.contains v.index

/-- Nonnegative values for the variables of a program that satisfy its constraints. -/
structure Feasible (p : Program ℚ) (y : ℕ → ℚ) : Prop where
  zero : ∀ i, p.registry.position? i = none → y i = 0
  nonneg : ∀ v ∈ p.registry.members, 0 ≤ y v.index
  holds : ∀ c ∈ p.constraints, c.Holds y

/-- Nonnegative values are feasible if no margin is negative and those of equations are zero. -/
lemma feasible_point {p : Program ℚ} {x : ℕ → ℚ} (hown : ∀ j < p.registry.size, 0 ≤ x j)
    (hmargin : ∀ c ∈ p.constraints, c.relation ≠ .equal → 0 ≤ c.margin (p.registry.point x))
    (heq : ∀ c ∈ p.constraints, c.relation = .equal → c.margin (p.registry.point x) = 0) :
    p.Feasible (p.registry.point x) := by
  refine ⟨fun i hi => by rw [Registry.point,hi]; rfl,fun v hv => ?_,fun c hc => ?_⟩
  · unfold Registry.point
    cases hpos : p.registry.position? v.index with
    | none => exact le_rfl
    | some j => exact hown j (Registry.position?_eq_some hpos).1
  · rw [Constraint.holds_iff_margin]
    by_cases hc' : c.relation = .equal
    · have := heq c hc hc'
      exact ⟨this.ge,fun _ => this⟩
    · exact ⟨hmargin c hc hc',fun he => absurd he hc'⟩

structure HoldsWithin (ε : ℚ) (p : Program ℚ) (y : ℕ → ℚ) : Prop where
  nonneg : ∀ v ∈ p.registry.members, -ε ≤ y v.index
  holds : ∀ c ∈ p.constraints, c.HoldsWithin ε y

def valueAt (p : Program ℚ) (y : ℕ → ℚ) : ℚ := p.objective.equation.evaluate y

/-- Minimizing is maximizing the negated value. -/
lemma evaluate_maximized (p : Program ℚ) (y : ℕ → ℚ) : p.objective.maximized.evaluate y =
    if p.objective.isMaximize then p.valueAt y else -p.valueAt y := by
  unfold Objective.maximized Objective.isMaximize valueAt
  cases p.objective.direction with
  | maximize => simp
  | minimize => simp [Equation.evaluate_negate]

/-- A point is better if the expression to be maximized is greater there. -/
lemma better_iff (p : Program ℚ) (y z : ℕ → ℚ) :
    p.objective.direction.Better (p.valueAt y) (p.valueAt z) ↔
      p.objective.maximized.evaluate z < p.objective.maximized.evaluate y := by
  rw [evaluate_maximized,evaluate_maximized]
  unfold Direction.Better Objective.isMaximize
  cases p.objective.direction with
  | maximize => simp
  | minimize => simp

end Program

end LinProg
