import Mathlib.Algebra.BigOperators.Ring.Finset
import Mathlib.Algebra.Field.Rat
import Mathlib.Algebra.Order.Ring.Rat
import LinProg.Program
import LinProg.Proofs.RegistryOrder

/-!
Points of a program over the rationals: the values of its variables by index. The value of an
expression at a point is the sum over the columns of its registry.
-/
namespace LinProg
open scoped BigOperators

namespace Registry

/-- The point at which the columns have the values `x`. It is zero outside the registry. -/
def point (r : Registry) (x : ℕ → ℚ) (i : ℕ) : ℚ := ((r.position? i).map x).getD 0

def valuesAt (r : Registry) (y : ℕ → ℚ) (j : ℕ) : ℚ := ((r.at? j).map fun v => y v.index).getD 0

lemma point_index {r : Registry} (hr : r.Ordered) (x : ℕ → ℚ) {j : ℕ}
    (hj : j < r.members.length) : r.point x r.members[j].index = x j := by
  rw [point,hr.position? hj]
  rfl

lemma point_congr {r : Registry} {x x' : ℕ → ℚ} (h : ∀ j < r.size, x j = x' j) :
    r.point x = r.point x' := by
  funext i
  unfold point
  cases hp : r.position? i with
  | none => rfl
  | some j => exact h j (position?_eq_some hp).1

lemma point_valuesAt {r : Registry} {y : ℕ → ℚ} (hy : ∀ i, r.position? i = none → y i = 0) :
    r.point (r.valuesAt y) = y := by
  funext i
  unfold point
  cases hp : r.position? i with
  | none => exact (hy i hp).symm
  | some j =>
    obtain ⟨hj,he⟩ := position?_eq_some hp
    simp [valuesAt,at?,List.getElem?_eq_getElem hj,he]

/-- A column whose index is `i` contributes, and no other one. -/
lemma sum_of_index {r : Registry} (hr : r.Ordered) (x : ℕ → ℚ) (i : ℕ) :
    (∑ j ∈ Finset.range r.size,
      if (r.at? j).map Variable.index = some i then x j else 0) = r.point x i := by
  unfold point
  cases hp : r.position? i with
  | none =>
    refine Finset.sum_eq_zero fun j hj => if_neg fun he => ?_
    obtain ⟨v,hv,hi⟩ := Option.map_eq_some_iff.mp he
    exact position?_eq_none.mp hp v (List.mem_of_getElem? hv) hi
  | some p =>
    obtain ⟨hlt,he⟩ := position?_eq_some hp
    have hmem : p ∈ Finset.range r.size := Finset.mem_range.mpr hlt
    rw [Finset.sum_eq_single_of_mem p hmem]
    · simp [at?,List.getElem?_eq_getElem hlt,he]
    · intro j hj hne
      have hj' : j < r.members.length := Finset.mem_range.mp hj
      refine if_neg fun hji => hne ?_
      have hi : r.members[j].index = i := by
        simpa [at?,List.getElem?_eq_getElem hj'] using hji
      have := hr.position? hj'
      rw [hi,hp] at this
      exact (Option.some.inj this).symm

end Registry

namespace Equation

def coefficientAt (e : Equation ℚ) (r : Registry) (j : ℕ) : ℚ :=
  ((r.at? j).bind fun v => e.get? v.index).getD 0

lemma evaluate_eq_sum (e : Equation ℚ) (y : ℕ → ℚ) :
    e.evaluate y = (e.entries.map fun entry => entry.2 * y entry.1).sum := by
  have h : ∀ (l : List (ℕ × ℚ)) (a : ℚ),
      l.foldl (fun sum entry => sum + entry.2 * y entry.1) a =
        a + (l.map fun entry => entry.2 * y entry.1).sum := by
    intro l
    induction l with
    | nil => simp
    | cons entry l ih => intro a; simp [ih,add_assoc]
  exact (h e.entries (-0)).trans (by simp)

lemma evaluate_negate (e : Equation ℚ) (y : ℕ → ℚ) : e.negate.evaluate y = -e.evaluate y := by
  rw [evaluate_eq_sum,evaluate_eq_sum,negate,List.map_map]
  induction e.entries with
  | nil => simp
  | cons entry es ih =>
    rw [List.map_cons,List.sum_cons,ih]
    simp only [Function.comp_apply,List.map_cons,List.sum_cons]
    ring

/-- Only the entries of the registry count at one of its points. -/
theorem evaluate_point {r : Registry} (hr : r.Ordered) (e : Equation ℚ) (x : ℕ → ℚ) :
    e.evaluate (r.point x) = ∑ j ∈ Finset.range r.size, e.coefficientAt r j * x j := by
  obtain ⟨es,ho⟩ := e
  rw [evaluate_eq_sum]
  simp only [coefficientAt,get?]
  induction es with
  | nil =>
    refine (Finset.sum_eq_zero fun j _ => ?_).symm
    cases r.at? j <;> simp [entryAt?]
  | cons entry es ih =>
    obtain ⟨i,c⟩ := entry
    obtain ⟨hi,ho'⟩ := List.pairwise_cons.mp ho
    have hnone : entryAt? i es = none := entryAt?_eq_none hi
    rw [List.map_cons,List.sum_cons,ih ho',← Registry.sum_of_index hr x i,Finset.mul_sum,
      ← Finset.sum_add_distrib]
    apply Finset.sum_congr rfl
    intro j _
    cases hv : r.at? j with
    | none => simp
    | some v =>
      by_cases hvi : v.index = i
      · simp [hvi,entryAt?,hnone]
      · simp [hvi,entryAt?,Ne.symm hvi]

end Equation

end LinProg
