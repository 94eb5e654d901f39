import LinProg.Proofs.Choice
import LinProg.Report
import Mathlib.Data.Rat.Floor
import Mathlib.Tactic

/-!
The number a report rounds to, over the rationals: the nearest multiple of a power of ten, and of
two that are equally near the one farther from zero. That determines it, so what becomes of an
opposite, a rounded or a greater number follows from the relation alone.
-/
namespace LinProg

namespace Decimal

/-- Of the multiples of `10 ^ -places`, `y` is the nearest to `x`, and no other one that is as near
is farther from zero. -/
structure NearestMultiple (places : ℕ) (x y : ℚ) : Prop where
  multiple : ∃ k : ℤ, y = k/10 ^ places
  nearest : ∀ k : ℤ, |x-y| ≤ |x-k/10 ^ places|
  away : ∀ k : ℤ, |x-k/10 ^ places| = |x-y| → |(k:ℚ)/10 ^ places| ≤ |y|

namespace NearestMultiple
variable {places : ℕ} {x x' y y' : ℚ}

/-- Two nearest multiples of one size are equal or opposite. Opposite ones are equally near to zero
alone, which is a multiple itself. -/
theorem unique (h : NearestMultiple places x y) (h' : NearestMultiple places x y') : y = y' := by
  obtain ⟨i,rfl⟩ := h.multiple
  obtain ⟨j,rfl⟩ := h'.multiple
  have hnear := le_antisymm (h.nearest j) (h'.nearest i)
  have hsize := le_antisymm (h'.away i hnear) (h.away j hnear.symm)
  rcases abs_eq_abs.mp hnear with heq | hopposite
  · linarith
  rcases abs_eq_abs.mp hsize with heq | hsign
  · exact heq
  have hx : x = 0 := by linarith
  have hzero := h.nearest 0
  rw [hx,Int.cast_zero,zero_div,sub_zero,abs_zero,zero_sub,abs_neg] at hzero
  have hi := abs_eq_zero.mp (le_antisymm hzero (abs_nonneg _))
  linarith

theorem neg (h : NearestMultiple places x y) : NearestMultiple places (-x) (-y) := by
  have hdist : |-x- -y| = |x-y| := by rw [← abs_neg,neg_sub,neg_sub_neg]
  have hopposite (k : ℤ) : |-x-k/10 ^ places| = |x-(-k:ℤ)/10 ^ places| := by
    rw [← abs_neg]
    push_cast
    ring_nf
  obtain ⟨i,hi⟩ := h.multiple
  refine ⟨⟨-i,?_⟩,fun k => ?_,fun k hk => ?_⟩
  · rw [hi]
    push_cast
    ring
  · rw [hdist,hopposite]
    exact h.nearest (-k)
  · rw [hdist,hopposite] at hk
    have := h.away (-k) hk
    rw [Int.cast_neg,neg_div,abs_neg] at this
    rwa [abs_neg]

theorem self_of_multiple (h : ∃ k : ℤ, y = k/10 ^ places) : NearestMultiple places y y := by
  refine ⟨h,fun k => ?_,fun k hk => ?_⟩
  · rw [sub_self,abs_zero]
    exact abs_nonneg _
  · rw [sub_self,abs_zero,abs_eq_zero,sub_eq_zero] at hk
    rw [hk]

/-- If the smaller number preferred the greater multiple, both numbers would lie in the middle. -/
theorem mono (h : NearestMultiple places x y) (h' : NearestMultiple places x' y') (hx : x ≤ x') :
    y ≤ y' := by
  by_contra! hlt
  obtain ⟨i,hi⟩ := h.multiple
  obtain ⟨j,hj⟩ := h'.multiple
  have hleft : |x-y| ≤ |x-y'| := hj ▸ h.nearest j
  have hright : |x'-y'| ≤ |x'-y| := hi ▸ h'.nearest i
  have hmiddle : y+y' ≤ 2*x := by
    rcases abs_cases (x-y) with hy | hy <;> rcases abs_cases (x-y') with hy' | hy' <;> linarith
  have hmiddle' : 2*x' ≤ y+y' := by
    rcases abs_cases (x'-y) with hy | hy <;> rcases abs_cases (x'-y') with hy' | hy' <;> linarith
  obtain rfl : x = x' := by linarith
  exact hlt.ne' (h.unique h')

/-- A nearest whole number of `10 ^ places` times `x`, as a multiple. -/
theorem scale (h : NearestMultiple 0 (x*10 ^ places) y) :
    NearestMultiple places x (y/10 ^ places) := by
  have hpos : (0:ℚ) < 10 ^ places := by positivity
  have hdist (z : ℚ) : |x-z/10 ^ places| = |x*10 ^ places-z|/10 ^ places := by
    rw [← abs_of_pos hpos,← abs_div,abs_of_pos hpos,sub_div,mul_div_cancel_right₀ _ hpos.ne']
  obtain ⟨i,hi⟩ := h.multiple
  refine ⟨⟨i,by rw [hi,pow_zero,div_one]⟩,fun k => ?_,fun k hk => ?_⟩
  · have := h.nearest k
    rw [pow_zero,div_one] at this
    rw [hdist,hdist]
    exact div_le_div_of_nonneg_right this hpos.le
  · rw [hdist,hdist,div_left_inj' hpos.ne'] at hk
    have := h.away k (by rwa [pow_zero,div_one])
    rw [pow_zero,div_one] at this
    rw [abs_div,abs_div]
    exact div_le_div_of_nonneg_right this (abs_nonneg _)

/-- Halves that are rounded up go away from zero if they are not negative. -/
lemma of_round (hx : 0 ≤ x) : NearestMultiple 0 x (round x) := by
  refine ⟨⟨round x,by simp⟩,fun k => ?_,fun k hk => ?_⟩ <;> rw [pow_zero,div_one] at *
  · exact round_le x k
  have hbound : x-1/2 < round x := by
    have := Int.sub_one_lt_floor (x+1/2)
    rw [round_eq]
    linarith
  have hnonneg : (0:ℚ) ≤ round x := by
    rw [round_eq]
    exact_mod_cast Int.floor_nonneg.mpr (by linarith : (0:ℚ) ≤ x+1/2)
  rw [abs_of_nonneg hnonneg]
  rcases abs_eq_abs.mp hk with heq | hopposite
  · rw [show (k:ℚ) = round x by linarith,abs_of_nonneg hnonneg]
  · have hle : k ≤ round x := by
      by_contra! hlt
      have hlt : (round x:ℚ)+1 ≤ k := by exact_mod_cast hlt
      linarith
    have hle : (k:ℚ) ≤ round x := by exact_mod_cast hle
    exact abs_le.mpr ⟨by linarith,hle⟩

end NearestMultiple

end Decimal

section Whole

lemma Scalar.tenPow_rat (n : ℕ) : (Scalar.tenPow n : ℚ) = 10 ^ n := by
  change Rat.ofScientific 1 false n = 10 ^ n
  rw [Rat.ofScientific_false_def]
  push_cast
  ring

/-- Twice the numerator and a denominator over twice the denominator: a half is added and the
fraction is cut off. -/
lemma Scalar.nearestWhole_rat (q : ℚ) :
    (Scalar.nearestWhole q : ℚ) = if q < 0 then -round (-q) else round q := by
  have hden : (q.den:ℚ) ≠ 0 := by exact_mod_cast q.den_nz
  have hsize : |q| = q.num.natAbs/q.den := by
    conv_lhs => rw [← Rat.num_div_den q]
    rw [abs_div,Nat.abs_cast,Nat.cast_natAbs,Int.cast_abs]
  have hround : (((2*q.num.natAbs+q.den)/(2*q.den) : ℕ) : ℤ) = round |q| := by
    have hsum : |q|+1/2 = ((2*q.num.natAbs+q.den:ℕ):ℤ)/((2*q.den:ℕ):ℚ) := by
      rw [hsize,Int.cast_natCast,Nat.cast_add,Nat.cast_mul,Nat.cast_mul]
      field_simp
      ring
    rw [round_eq,hsum,Rat.floor_intCast_div_natCast]
    rfl
  change (if decide (q.num < 0) = true then -((((2*q.num.natAbs+q.den)/(2*q.den) : ℕ) : ℤ) : ℚ)
    else ((((2*q.num.natAbs+q.den)/(2*q.den) : ℕ) : ℤ) : ℚ)) = _
  rw [hround]
  by_cases hq : q < 0
  · rw [if_pos (by simpa using hq),if_pos hq,abs_of_neg hq,Int.cast_neg]
  · rw [if_neg (by simpa using hq),if_neg hq,abs_of_nonneg (not_lt.mp hq)]

lemma Scalar.nearestMultiple_nearestWhole (q : ℚ) :
    Decimal.NearestMultiple 0 q (Scalar.nearestWhole q) := by
  rw [nearestWhole_rat]
  split
  case isTrue hq => simpa using (Decimal.NearestMultiple.of_round (x := -q) (by linarith)).neg
  case isFalse hq => exact Decimal.NearestMultiple.of_round (not_lt.mp hq)

end Whole

namespace Report
open Decimal
variable (r : Report) {x y : ℚ}

/-- What a report rounds to. -/
theorem nearestMultiple_round (x : ℚ) : NearestMultiple r.places x (r.round x) := by
  rw [round,Scalar.plainZero_eq,Scalar.tenPow_rat]
  exact (Scalar.nearestMultiple_nearestWhole _).scale

variable {r}

lemma round_eq_of_nearest (h : NearestMultiple r.places x y) : r.round x = y :=
  (r.nearestMultiple_round x).unique h

variable (r)

lemma round_neg (x : ℚ) : r.round (-x) = -r.round x :=
  round_eq_of_nearest (r.nearestMultiple_round x).neg

lemma round_round (x : ℚ) : r.round (r.round x) = r.round x :=
  round_eq_of_nearest (.self_of_multiple (r.nearestMultiple_round x).multiple)

lemma monotone_round : Monotone (r.round : ℚ → ℚ) := fun x y h =>
  (r.nearestMultiple_round x).mono (r.nearestMultiple_round y) h

end Report

end LinProg
