import Mathlib.Algebra.BigOperators.Ring.Finset
import Mathlib.Algebra.Field.Rat
import Mathlib.Algebra.Order.Ring.Rat
import Mathlib.Tactic
import LinProg.Tableau

/-!
Rows over the rationals, read as linear equations between the values of columns. What a row leaves
open at an assignment is linear in the row, which is all that the row operations need.
-/
namespace LinProg
open scoped BigOperators

namespace Row

/-- The left-hand side of a row when the columns take the values `x`. -/
def dot (r : Row ℚ) (x : ℕ → ℚ) : ℚ := ∑ j ∈ Finset.range r.entries.length, r.entry j * x j

/-- What the left-hand side leaves of the right-hand side. -/
def residual (r : Row ℚ) (x : ℕ → ℚ) : ℚ := r.rhs - r.dot x

def Holds (r : Row ℚ) (x : ℕ → ℚ) : Prop := r.dot x = r.rhs

lemma holds_iff_residual {r : Row ℚ} {x : ℕ → ℚ} : r.Holds x ↔ r.residual x = 0 := by
  rw [Holds,residual,sub_eq_zero,eq_comm]

@[simp] lemma dot_zero (r : Row ℚ) : r.dot (fun _ => 0) = 0 := by simp [dot]

lemma dot_add (r : Row ℚ) (x y : ℕ → ℚ) : r.dot (fun j => x j + y j) = r.dot x + r.dot y := by
  simp only [dot,mul_add,Finset.sum_add_distrib]

/-- A single column contributes its entry. -/
lemma dot_single {r : Row ℚ} {c : ℕ} (hc : c < r.entries.length) (a : ℚ) :
    r.dot (fun j => if j = c then a else 0) = r.entry c * a := by
  simp only [dot,mul_ite,mul_zero,Finset.sum_ite_eq',Finset.mem_range,hc,if_true]

lemma dot_sum (r : Row ℚ) {ι : Type} (s : Finset ι) (x : ι → ℕ → ℚ) :
    r.dot (fun j => ∑ k ∈ s, x k j) = ∑ k ∈ s, r.dot (x k) := by
  simp only [dot,Finset.mul_sum]
  exact Finset.sum_comm

/-- A sum with only nonnegative products is nonnegative. -/
lemma dot_nonneg {r : Row ℚ} {x : ℕ → ℚ} (h : ∀ j < r.entries.length, 0 ≤ r.entry j * x j) :
    0 ≤ r.dot x :=
  Finset.sum_nonneg fun j hj => h j (Finset.mem_range.mp hj)

@[simp] lemma rhs_map (f : ℚ → ℚ) (r : Row ℚ) : (r.map f).rhs = f r.rhs := rfl

lemma residual_map_div (r : Row ℚ) (a : ℚ) (x : ℕ → ℚ) :
    (r.map (· / a)).residual x = r.residual x / a := by
  simp only [residual,dot,length_entries_map,entry_map,rhs_map,sub_div,Finset.sum_div]
  congr 1
  exact Finset.sum_congr rfl fun j _ => by ring

lemma residual_map_neg (r : Row ℚ) (x : ℕ → ℚ) :
    (r.map (-·)).residual x = -r.residual x := by
  simp only [residual,dot,length_entries_map,entry_map,rhs_map,neg_mul,Finset.sum_neg_distrib]
  ring

lemma rhs_eliminate (r p : Row ℚ) (c : ℕ) :
    (r.eliminate c p).rhs = r.rhs - r.entry c * p.rhs := by
  unfold eliminate
  dsimp only
  split
  case isTrue h0 =>
    rw [show r.entry c = 0 by simpa using h0]
    ring
  case isFalse => rfl

section Eliminate
variable {r p : Row ℚ} (h : r.entries.length = p.entries.length) (c : ℕ)
include h

/-- Skipping a zero factor changes nothing: the multiple subtracted would be zero. -/
lemma entry_eliminate (j : ℕ) :
    (r.eliminate c p).entry j = r.entry j - r.entry c * p.entry j := by
  unfold eliminate
  dsimp only
  split
  case isTrue h0 =>
    rw [show r.entry c = 0 by simpa using h0]
    ring
  case isFalse => exact entry_zipWith _ h j

lemma residual_eliminate (x : ℕ → ℚ) :
    (r.eliminate c p).residual x = r.residual x - r.entry c * p.residual x := by
  simp only [residual,dot,length_entries_eliminate h,entry_eliminate h,rhs_eliminate,sub_mul,
    Finset.sum_sub_distrib,mul_assoc,← Finset.mul_sum]
  rw [h]
  ring

end Eliminate

end Row

end LinProg
