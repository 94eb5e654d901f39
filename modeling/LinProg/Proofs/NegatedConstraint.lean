import LinProg.Proofs.Negation
import LinProg.Proofs.RegistryOrder
import LinProg.Solver.Solve

/-!
Constraints with both sides negated. A row with a negative right-hand side is negated when the first
tableau is built, so a constraint and the negated one give the same row, unless its bound is zero or
no number. On doubles too: nothing is rounded by a factor of 1 or -1.
-/
namespace LinProg

namespace Constraint
variable {K : Type} [Scalar K]

def negated (c : Constraint K) : Constraint K := ⟨c.equation.negate,c.relation.flip,-c.bound⟩

structure SameRow (c d : Constraint K) : Prop where
  relation : d.rowRelation = c.rowRelation
  entry : ∀ i, (d.equation.get? i).map (d.rowSign * ·) = (c.equation.get? i).map (c.rowSign * ·)
  rhs : d.rowSign * d.bound = c.rowSign * c.bound

lemma SameRow.refl (c : Constraint K) : c.SameRow c := ⟨rfl,fun _ => rfl,rfl⟩

/-- A double that is neither zero nor no number decides which of the two constraints is negated. -/
theorem sameRow_negated {c : Constraint Float} (hne : (c.bound == 0) = false)
    (hnan : c.bound.isNaN = false) : c.SameRow c.negated := by
  obtain ⟨hle,hlt⟩ := Double.negated_sides hne hnan
  have hone : ∀ x : Float, -1 * -x = 1 * x := fun x => Double.mul_neg_eq_neg_mul (-1) x
  have hsign : ∀ x : Float, c.negated.rowSign * -x = c.rowSign * x := by
    intro x
    unfold rowSign negated
    dsimp only
    by_cases hneg : c.bound < 0
    · rw [if_neg (hlt.not.mpr (not_not.mpr hneg)),if_pos hneg]
      exact Double.mul_neg_eq_neg_mul 1 x
    · rw [if_pos (hlt.mpr hneg),if_neg hneg]
      exact hone x
  refine ⟨?_,fun i => ?_,hsign c.bound⟩
  · unfold rowRelation negated
    dsimp only
    by_cases hpos : 0 ≤ c.bound
    · rw [if_neg (hle.not.mpr (not_not.mpr hpos)),if_pos hpos,Relation.flip_flip]
    · rw [if_pos (hle.mpr hpos),if_neg hpos]
  · rw [negated,Equation.get?_negate,Option.map_map]
    exact congrArg (Option.map · _) (funext hsign)

end Constraint

namespace Tableau
variable {K : Type} [Scalar K]

/-- The added columns depend on the relations of the rows only. -/
lemma supplements_congr {cs ds : List (Constraint K)} (h : List.Forall₂ Constraint.SameRow cs ds)
    (g : Growth) : supplements g ds = supplements g cs := by
  induction h generalizing g with
  | nil => rfl
  | @cons c d cs ds hrow hrest ih =>
    simp only [supplements,hrow.relation,ih]

/-- A row takes from its constraint the products with the sign, and what is missing. -/
lemma constraintRow_eq (own : List Variable) (added number : ℕ) (c : Constraint K)
    (s : Supplement K) : constraintRow own added number c s =
      (own.mapM fun v => ((c.equation.get? v.index).map (c.rowSign * ·)).elim
        (.error (.missingCoefficient number v.name)) .ok) >>= fun front =>
      .ok { entries := front ++ (List.range added).map fun j =>
              (s.units.lookup (own.length+j)).getD 0
            rhs := c.rowSign * c.bound
            basic := s.basic } := by
  unfold constraintRow
  congr 2
  funext v
  cases c.equation.get? v.index <;> rfl

lemma constraintRow_congr {c d : Constraint K} (h : c.SameRow d) (own : List Variable)
    (added number : ℕ) (s : Supplement K) :
    constraintRow own added number d s = constraintRow own added number c s := by
  rw [constraintRow_eq,constraintRow_eq]
  simp only [h.entry,h.rhs]

lemma constraintRows_congr {cs ds : List (Constraint K)}
    (h : List.Forall₂ Constraint.SameRow cs ds) (own : List Variable) (added number : ℕ)
    (ss : List (Supplement K)) :
    constraintRows own added number ds ss = constraintRows own added number cs ss := by
  induction h generalizing number ss with
  | nil => rfl
  | @cons c d cs ds hrow hrest ih =>
    cases ss with
    | nil => rfl
    | cons s ss => rw [constraintRows,constraintRows,constraintRow_congr hrow,ih]

/-- Programs whose constraints give the same rows have the same first tableau. -/
theorem build_congr (p : Program K) {cs : List (Constraint K)}
    (h : List.Forall₂ Constraint.SameRow p.constraints cs) :
    build { p with constraints := cs } = build p := by
  unfold build
  simp only [supplements_congr h,constraintRows_congr h]

end Tableau

lemma forall₂_modify {α : Type} {R : α → α → Prop} (hrefl : ∀ a, R a a) {f : α → α} {l : List α}
    {i : ℕ} (hi : i < l.length) (hf : R l[i] (f l[i])) : List.Forall₂ R l (l.modify i f) := by
  induction l generalizing i with
  | nil => contradiction
  | cons a l ih =>
    cases i with
    | zero => exact .cons hf (List.forall₂_same.mpr fun a _ => hrefl a)
    | succ i => exact .cons (hrefl a) (ih (Nat.lt_of_succ_lt_succ hi) hf)

def Program.negateAt {K : Type} [Scalar K] (p : Program K) (i : ℕ) : Program K :=
  { p with constraints := p.constraints.modify i .negated }

namespace Solver

/-- A program and the one with a constraint negated have the same first tableau, or break the same
rule of the library, so every solve ends alike. -/
theorem solve_negated (p : Program Float) {i : ℕ} (hi : i < p.constraints.length)
    (hne : (p.constraints[i].bound == 0) = false) (hnan : p.constraints[i].bound.isNaN = false) :
    Tableau.build (p.negateAt i) = Tableau.build p ∧
    ∀ s : Solver Float, s.solve (p.negateAt i) = s.solve p := by
  have hbuild : Tableau.build (p.negateAt i) = Tableau.build p := Tableau.build_congr p
    (forall₂_modify Constraint.SameRow.refl hi (Constraint.sameRow_negated hne hnan))
  refine ⟨hbuild,fun s => ?_⟩
  rw [solve,solve,hbuild]

/-- Maximizes `3X1 + 2X2` where `X1 + X2 <= 4`, `X1 >= -3` and `X1 + 3X2 = 6`. -/
def boundedProgram : Program Float where
  registry := .numbered "X" 2
  objective := ⟨.ofList [(1,3),(2,2)],.maximize⟩
  constraints := [⟨.ofList [(1,1),(2,1)],.atMost,4⟩,⟨.ofList [(1,1),(2,0)],.atLeast,-3⟩,
    ⟨.ofList [(1,1),(2,3)],.equal,6⟩]

/-- The second constraint becomes `-X1 <= 3`, with a zero of the other sign. Either way its row is
negated and gets the second slack column. -/
theorem solve_negated_bounded : ∃ t, Tableau.build boundedProgram = .ok t ∧
    Tableau.build (boundedProgram.negateAt 1) = .ok t ∧
    t.columns.members.map Variable.name = ["X1","X2","S1","S2","A1"] ∧
    t.rows[1]? = some ⟨⟨[-1,-0,0,1,0],3⟩,3⟩ ∧
    ∀ s : Solver Float, s.solve (boundedProgram.negateAt 1) = s.solve boundedProgram := by
  have hvalue : (Tableau.build boundedProgram).toOption.map
      (fun t => (t.columns.members.map Variable.name,t.rows[1]?)) =
        some (["X1","X2","S1","S2","A1"],some ⟨⟨[-1,-0,0,1,0],3⟩,3⟩) := by decide +kernel
  obtain ⟨t,ht,hparts⟩ := Option.map_eq_some_iff.mp hvalue
  obtain ⟨hcolumns,hrow⟩ := Prod.mk.inj hparts
  have hbuild := Except.toOption_eq_some.mp ht
  obtain ⟨hsame,hsolve⟩ := solve_negated boundedProgram (i := 1) (by decide) (by decide +kernel)
    (by decide +kernel)
  exact ⟨t,hbuild,hsame.trans hbuild,hcolumns,hrow,hsolve⟩

end Solver

end LinProg
