import Mathlib.Algebra.Order.Field.Power
import Mathlib.Tactic

/-!
The double nearest to a rational, as a relation: a significand of 53 bits is nearest to the rational
in units of its exponent, and even where two are equally near. Bounds on the exponent are left to
the users.
-/
namespace LinProg.Double

/-- The whole number `q` is nearest to `x`, and even if another one is as near. -/
structure IsNearest (x : ℚ) (q : ℕ) : Prop where
  near : |x-q| ≤ 1/2
  even : |x-q| = 1/2 → q % 2 = 0

/-- The significand of a double that is not subnormal. -/
structure Normal (m : ℕ) : Prop where
  low : 2 ^ 52 ≤ m
  high : m < 2 ^ 53

/-- The unit in which `x` has a significand of 53 bits. -/
structure UnitOf (x : ℚ) (t : ℤ) : Prop where
  low : 2 ^ 52*2 ^ t ≤ x
  high : x < 2 ^ 53*2 ^ t

/-- The double nearest to `x` is `y`. -/
def RoundsTo (x y : ℚ) : Prop :=
  ∃ (t : ℤ) (q : ℕ), UnitOf x t ∧ IsNearest (x/2 ^ t) q ∧ y = q*2 ^ t

section Nearest
variable {x : ℚ} {q r : ℕ}

lemma isNearest_natCast (n : ℕ) : IsNearest n n := ⟨by simp,by simp⟩

lemma IsNearest.not_before (hq : IsNearest x q) (hr : IsNearest x r) : ¬ q < r := by
  intro hlt
  have hstep : (q:ℚ)+1 ≤ r := by exact_mod_cast hlt
  obtain ⟨hq1,hq2⟩ := abs_le.mp hq.near
  obtain ⟨hr1,hr2⟩ := abs_le.mp hr.near
  have hxq : x-q = 1/2 := by linarith
  have hxr : x-r = -(1/2) := by linarith
  have heven := hq.even (by rw [hxq]; norm_num)
  have heven' := hr.even (by rw [hxr]; norm_num)
  have hnext : (r:ℚ) = (q+1:ℕ) := by
    push_cast
    linarith
  have hnext : r = q+1 := by exact_mod_cast hnext
  omega

lemma IsNearest.unique (hq : IsNearest x q) (hr : IsNearest x r) : q = r :=
  le_antisymm (not_lt.mp (hr.not_before hq)) (not_lt.mp (hq.not_before hr))

/-- A whole number is not passed over. -/
lemma IsNearest.le {n : ℕ} (hq : IsNearest x q) (hx : x < n+1/2) : q ≤ n := by
  have hlt : (q:ℚ) < n+1 := by
    have := (abs_le.mp hq.near).1
    linarith
  have hlt : q < n+1 := by exact_mod_cast hlt
  omega

lemma IsNearest.ge {n : ℕ} (hq : IsNearest x q) (hx : n ≤ x) : n ≤ q := by
  have hlt : (n:ℚ) < q+1 := by
    have := (abs_le.mp hq.near).2
    linarith
  have hlt : n < q+1 := by exact_mod_cast hlt
  omega

end Nearest

section Units
variable {x y : ℚ} {s t : ℤ}

lemma UnitOf.not_before (hs : UnitOf x s) (ht : UnitOf x t) : ¬ s < t := by
  intro hlt
  have hle : (2:ℚ) ^ (s+1) ≤ 2 ^ t := zpow_le_zpow_right₀ (by norm_num) hlt
  rw [zpow_add_one₀ (by norm_num)] at hle
  have := hs.high
  have := ht.low
  linarith

lemma UnitOf.unique (hs : UnitOf x s) (ht : UnitOf x t) : s = t :=
  le_antisymm (not_lt.mp (ht.not_before hs)) (not_lt.mp (hs.not_before ht))

lemma UnitOf.div (h : UnitOf x t) : 2 ^ 52 ≤ x/2 ^ t ∧ x/2 ^ t < 2 ^ 53 := by
  have hpos : (0:ℚ) < 2 ^ t := by positivity
  exact ⟨(le_div_iff₀ hpos).mpr h.low,(div_lt_iff₀ hpos).mpr h.high⟩

lemma Normal.unitOf {m : ℕ} (hm : Normal m) (e : ℤ) : UnitOf (m*2 ^ e) e := by
  have hpos : (0:ℚ) < 2 ^ e := by positivity
  have hlow : (2:ℚ) ^ 52 ≤ m := by exact_mod_cast hm.low
  have hhigh : (m:ℚ) < 2 ^ 53 := by exact_mod_cast hm.high
  exact ⟨mul_le_mul_of_nonneg_right hlow hpos.le,mul_lt_mul_of_pos_right hhigh hpos⟩

/-- A double has one significand and one exponent. -/
lemma Normal.unique {m n : ℕ} {d e : ℤ} (hm : Normal m) (hn : Normal n)
    (h : (m*2 ^ d : ℚ) = n*2 ^ e) : m = n ∧ d = e := by
  have hunit := hn.unitOf e
  rw [← h] at hunit
  obtain rfl := (hm.unitOf d).unique hunit
  have hpos : (2:ℚ) ^ d ≠ 0 := by positivity
  have := mul_right_cancel₀ hpos h
  exact ⟨by exact_mod_cast this,rfl⟩

lemma RoundsTo.unique {z : ℚ} (hy : RoundsTo x y) (hz : RoundsTo x z) : y = z := by
  obtain ⟨t,q,ht,hq,rfl⟩ := hy
  obtain ⟨u,r,hu,hr,rfl⟩ := hz
  obtain rfl := ht.unique hu
  rw [hq.unique hr]

lemma RoundsTo.pos (h : RoundsTo x y) : 0 < x ∧ 0 < y := by
  obtain ⟨t,q,ht,hq,rfl⟩ := h
  have hpos : (0:ℚ) < 2 ^ t := by positivity
  have hq' : 1 ≤ q := hq.ge (by push_cast; linarith [ht.div.1])
  exact ⟨lt_of_lt_of_le (by positivity) ht.low,mul_pos (by exact_mod_cast hq') hpos⟩

/-- A double rounds to itself. -/
lemma Normal.roundsTo {m : ℕ} (hm : Normal m) (e : ℤ) : RoundsTo (m*2 ^ e) (m*2 ^ e) := by
  refine ⟨e,m,hm.unitOf e,?_,rfl⟩
  rw [mul_div_cancel_right₀ _ (by positivity)]
  exact isNearest_natCast m

/-- A number with fewer than 54 bits is a double. -/
lemma RoundsTo.eq_of_unit_nonpos {n : ℕ} (h : RoundsTo n y) (ht : UnitOf n t) (hneg : t ≤ 0) :
    y = n := by
  obtain ⟨u,q,hu,hq,rfl⟩ := h
  obtain rfl := ht.unique hu
  obtain ⟨k,rfl⟩ : ∃ k : ℕ, t = -k := ⟨t.natAbs,by omega⟩
  have hdiv : (n:ℚ)/2 ^ (-(k:ℤ)) = (n*2 ^ k : ℕ) := by
    rw [zpow_neg,zpow_natCast,div_inv_eq_mul]
    push_cast
    rfl
  rw [hdiv] at hq
  rw [hq.unique (isNearest_natCast _),← hdiv,div_mul_cancel₀ _ (by positivity)]

/-- Whole numbers round to whole numbers. -/
lemma RoundsTo.exists_natCast {n : ℕ} (h : RoundsTo n y) : ∃ k : ℕ, y = k := by
  obtain ⟨t,q,ht,hq,rfl⟩ := h
  rcases le_total t 0 with hneg | hpos
  · exact ⟨n,RoundsTo.eq_of_unit_nonpos ⟨t,q,ht,hq,rfl⟩ ht hneg⟩
  · obtain ⟨k,rfl⟩ := Int.eq_ofNat_of_zero_le hpos
    exact ⟨q*2 ^ k,by push_cast; rfl⟩

/-- An addend that is small against a power of two is lost on it. -/
lemma RoundsTo.le_two_pow {k : ℕ} (h : RoundsTo x y) (hx : x < 2 ^ (52+k)+2 ^ k/2) :
    y ≤ 2 ^ (52+k) := by
  obtain ⟨t,q,ht,hq,rfl⟩ := h
  obtain ⟨-,hhigh⟩ := ht.div
  have hk : (0:ℚ) < 2 ^ k := by positivity
  have ht' : (0:ℚ) < 2 ^ t := by positivity
  rw [pow_add] at hx ⊢
  rcases lt_trichotomy t k with hlt | heq | hgt
  · have hq' : q ≤ 2 ^ 53 := hq.le (by push_cast; linarith)
    have hq' : (q:ℚ) ≤ 2 ^ 53 := by exact_mod_cast hq'
    have hle : (2:ℚ) ^ (t+1) ≤ 2 ^ (k:ℤ) := zpow_le_zpow_right₀ (by norm_num) hlt
    rw [zpow_add_one₀ (by norm_num),zpow_natCast] at hle
    calc (q:ℚ)*2 ^ t ≤ 2 ^ 53*2 ^ t := mul_le_mul_of_nonneg_right hq' ht'.le
      _ = 2 ^ 52*(2 ^ t*2) := by ring
      _ ≤ 2 ^ 52*2 ^ k := mul_le_mul_of_nonneg_left hle (by positivity)
  · subst heq
    rw [zpow_natCast] at hq ⊢
    have hq' : q ≤ 2 ^ 52 := by
      refine hq.le ((div_lt_iff₀ hk).mpr ?_)
      push_cast
      linarith
    have hq' : (q:ℚ) ≤ 2 ^ 52 := by exact_mod_cast hq'
    exact mul_le_mul_of_nonneg_right hq' hk.le
  · have hle : (2:ℚ) ^ ((k:ℤ)+1) ≤ 2 ^ t := zpow_le_zpow_right₀ (by norm_num) hgt
    rw [zpow_add_one₀ (by norm_num),zpow_natCast] at hle
    have := ht.low
    linarith

/-- A number from a power of two on is not rounded below it. -/
lemma RoundsTo.two_pow_le {k : ℕ} (h : RoundsTo x y) (hx : 2 ^ (52+k) ≤ x) : 2 ^ (52+k) ≤ y := by
  obtain ⟨t,q,ht,hq,rfl⟩ := h
  rw [pow_add] at hx ⊢
  have hk : (k:ℤ) ≤ t := by
    by_contra hlt
    have hle : (2:ℚ) ^ (t+1) ≤ 2 ^ (k:ℤ) := zpow_le_zpow_right₀ (by norm_num) (by omega)
    rw [zpow_add_one₀ (by norm_num),zpow_natCast] at hle
    have := ht.high
    linarith
  have hunit : (2:ℚ) ^ k ≤ 2 ^ t := by
    rw [← zpow_natCast]
    exact zpow_le_zpow_right₀ (by norm_num) hk
  have hq' : 2 ^ 52 ≤ q := hq.ge (by push_cast; exact ht.div.1)
  have hq' : (2:ℚ) ^ 52 ≤ q := by exact_mod_cast hq'
  exact mul_le_mul hq' hunit (by positivity) (by positivity)

end Units

end LinProg.Double
