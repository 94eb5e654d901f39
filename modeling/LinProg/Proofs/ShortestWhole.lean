import LinProg.Decimal.Shortest
import LinProg.Proofs.Digits
import LinProg.Proofs.WholeDoubles

/-!
The shortest decimal of a double that stands for a whole number. It is a whole number too, since
seventeen digits tell the double from its neighbours or the last of them stands in front of the
point, and the double nearest to it is the one it was made for.
-/
namespace LinProg.Decimal
open LinProg.Double

namespace Binary

/-- The double stands for a whole number. -/
structure IsWhole (b : Binary) (n : ℕ) : Prop where
  normal : Normal b.significand
  eq : (n:ℚ) = b.significand*2 ^ b.exponent
  le : n ≤ 2 ^ 120

/-- A number, in units of the last place, lies between the ends of the reals that round to `b`. -/
structure Within (b : Binary) (y : ℚ) : Prop where
  low : (b.lower:ℚ)/4 ≤ y
  high : y ≤ (b.upper:ℚ)/4
  odd : b.significand%2 = 1 → (b.lower:ℚ)/4 < y ∧ y < (b.upper:ℚ)/4

section Scales
variable {b : Binary} {d : ℕ} (k : ℕ)

lemma four_mul_two_pow (e : ℤ) : (4*2 ^ (e-2).toNat:ℚ) = 2 ^ (2-e).toNat*2 ^ e := by
  rw [← zpow_natCast,← zpow_natCast,← zpow_add₀ (by norm_num),show (4:ℚ) = 2 ^ (2:ℤ) by norm_num,
    ← zpow_add₀ (by norm_num)]
  congr 1
  omega

/-- Quarter units and a grid of whole numbers are compared on one scale. -/
lemma exists_scale (b : Binary) : ∃ c : ℚ, 0 < c ∧
    (∀ a : ℕ, ((a*b.quarterScale k:ℕ):ℚ) = a/4*c) ∧
    ∀ d : ℕ, ((d*b.gridStep k:ℕ):ℚ) = d*10 ^ k/2 ^ b.exponent*c := by
  refine ⟨2 ^ (2-b.exponent).toNat*2 ^ b.exponent,by positivity,fun a => ?_,fun d => ?_⟩
  · have hzero : (-(k:ℤ)).toNat = 0 := by omega
    rw [← four_mul_two_pow,quarterScale,hzero,Nat.shiftLeft_eq]
    push_cast [Nat.pow_eq]
    ring
  · have hpos : (2:ℚ) ^ b.exponent ≠ 0 := by positivity
    rw [gridStep,Int.toNat_natCast,Nat.shiftLeft_eq]
    push_cast [Nat.pow_eq]
    field_simp

lemma holds_iff : b.holds k d = true ↔ b.Within (d*10 ^ k/2 ^ b.exponent) := by
  obtain ⟨c,hc,hquarter,hgrid⟩ := b.exists_scale k
  have hle (x y : ℕ) : x ≤ y ↔ (x:ℚ) ≤ y := Nat.cast_le.symm
  have hlt (x y : ℕ) : x < y ↔ (x:ℚ) < y := Nat.cast_lt.symm
  unfold holds closed
  simp only [hle,hlt,hquarter,hgrid,mul_le_mul_iff_left₀ hc,mul_lt_mul_iff_left₀ hc]
  rcases Nat.mod_two_eq_zero_or_one b.significand with heven | hodd
  · simp only [heven,decide_true,if_true,Bool.and_eq_true,decide_eq_true_eq]
    exact ⟨fun h => ⟨h.1,h.2,by omega⟩,fun h => ⟨h.low,h.high⟩⟩
  · simp only [hodd,one_ne_zero,decide_false,Bool.false_eq_true,if_false,Bool.and_eq_true,
      decide_eq_true_eq]
    exact ⟨fun h => ⟨h.1.le,h.2.le,fun _ => h⟩,fun h => h.odd hodd⟩

end Scales

section Ends
variable {b : Binary} {n : ℕ}

lemma IsWhole.exponent_bounds (h : b.IsWhole n) : -52 ≤ b.exponent ∧ b.exponent ≤ 68 :=
  h.normal.exponent_bounds h.eq h.le

lemma IsWhole.div_eq (h : b.IsWhole n) : (n:ℚ)/2 ^ b.exponent = b.significand := by
  rw [h.eq,mul_div_cancel_right₀ _ (by positivity)]

lemma upper_div (b : Binary) : (b.upper:ℚ)/4 = b.significand+1/2 := by
  rw [upper,value]
  push_cast
  ring

lemma IsWhole.lower_div_of_eq (h : b.IsWhole n) (hm : b.significand = 2 ^ 52) :
    (b.lower:ℚ)/4 = b.significand-1/4 := by
  have hleast : leastExponent < b.exponent := by
    have := h.exponent_bounds
    rw [leastExponent]
    omega
  rw [lower,if_pos ⟨by rw [hm]; rfl,hleast⟩,value,hm]
  norm_num

lemma IsWhole.lower_div_of_ne (h : b.IsWhole n) (hm : b.significand ≠ 2 ^ 52) :
    (b.lower:ℚ)/4 = b.significand-1/2 := by
  have hlow := h.normal.low
  rw [lower,if_neg fun hb => hm (by rw [hb.1]; rfl),value,Nat.cast_sub (by omega)]
  push_cast
  ring

lemma IsWhole.lower_bounds (h : b.IsWhole n) :
    b.significand-1/2 ≤ (b.lower:ℚ)/4 ∧ (b.lower:ℚ)/4 < b.significand := by
  by_cases hm : b.significand = 2 ^ 52
  · rw [h.lower_div_of_eq hm]
    constructor <;> linarith
  · rw [h.lower_div_of_ne hm]
    constructor <;> linarith

/-- The double itself lies between its ends. -/
lemma IsWhole.within (h : b.IsWhole n) : b.Within (n/2 ^ b.exponent) := by
  obtain ⟨-,hlow⟩ := h.lower_bounds
  have hhigh := b.upper_div
  rw [h.div_eq]
  exact ⟨hlow.le,by linarith,fun _ => ⟨hlow,by linarith⟩⟩

/-- Only below a power of two does the interval reach into the next smaller unit. -/
lemma Within.significand_eq {y : ℚ} (h : b.IsWhole n) (hy : b.Within y) (hlt : y < 2 ^ 52) :
    b.significand = 2 ^ 52 := by
  by_contra hne
  have hlt' : 2 ^ 52 < b.significand := lt_of_le_of_ne h.normal.low (Ne.symm hne)
  have hlt' : (2:ℚ) ^ 52+1 ≤ b.significand := by exact_mod_cast hlt'
  have hlow := hy.low
  rw [h.lower_div_of_ne hne] at hlow
  linarith

/-- Below a power of two the unit is half as large, and the significand is `2 ^ 53` there. -/
lemma Within.roundsTo_of_lt {x : ℚ} (h : b.IsWhole n) (hx : b.Within (x/2 ^ b.exponent))
    (hlt : x/2 ^ b.exponent < 2 ^ 52) : RoundsTo x n := by
  have hpow := hx.significand_eq h hlt
  have hlow := hx.low
  rw [h.lower_div_of_eq hpow,hpow] at hlow
  push_cast at hlow
  have hunit : (2:ℚ) ^ b.exponent = 2 ^ (b.exponent-1)*2 := by
    rw [← zpow_add_one₀ (by norm_num)]
    congr 1
    omega
  have hpos : (0:ℚ) < 2 ^ (b.exponent-1) := by positivity
  have hhalf : x/2 ^ (b.exponent-1) = 2*(x/2 ^ b.exponent) := by
    rw [hunit]
    field_simp
  have hunitOf : UnitOf x (b.exponent-1) := by
    refine ⟨(le_div_iff₀ hpos).mp ?_,(div_lt_iff₀ hpos).mp ?_⟩ <;> rw [hhalf] <;> linarith
  have hnear : IsNearest (x/2 ^ (b.exponent-1)) (2 ^ 53) := by
    refine ⟨abs_le.mpr ?_,fun _ => by norm_num⟩
    rw [hhalf]
    push_cast
    constructor <;> linarith
  refine ⟨b.exponent-1,2 ^ 53,hunitOf,hnear,?_⟩
  rw [h.eq,hpow,hunit]
  push_cast
  ring

lemma Within.roundsTo_of_ge {x : ℚ} (h : b.IsWhole n) (hx : b.Within (x/2 ^ b.exponent))
    (hge : 2 ^ 52 ≤ x/2 ^ b.exponent) : RoundsTo x n := by
  have hpos : (0:ℚ) < 2 ^ b.exponent := by positivity
  obtain ⟨hlow',-⟩ := h.lower_bounds
  have hlow := hx.low
  have hhigh := hx.high
  rw [b.upper_div] at hhigh
  have hm : (b.significand:ℚ)+1 ≤ 2 ^ 53 := by exact_mod_cast h.normal.high
  have hunitOf : UnitOf x b.exponent :=
    ⟨(le_div_iff₀ hpos).mp hge,(div_lt_iff₀ hpos).mp (by linarith)⟩
  refine ⟨b.exponent,b.significand,hunitOf,⟨abs_le.mpr ⟨by linarith,by linarith⟩,?_⟩,h.eq⟩
  intro hhalf
  by_contra hodd
  obtain ⟨hlow'',hhigh''⟩ := hx.odd (by omega)
  rw [b.upper_div] at hhigh''
  have : |x/2 ^ b.exponent-b.significand| < 1/2 := abs_lt.mpr ⟨by linarith,by linarith⟩
  linarith

/-- What lies between the ends rounds to the double. -/
theorem Within.roundsTo {x : ℚ} (h : b.IsWhole n) (hx : b.Within (x/2 ^ b.exponent)) :
    RoundsTo x n := by
  rcases lt_or_ge (x/2 ^ b.exponent) (2 ^ 52) with hlt | hge
  · exact hx.roundsTo_of_lt h hlt
  · exact hx.roundsTo_of_ge h hge

/-- Sixteen digits and a part of a seventeenth are enough to hit the interval. -/
lemma IsWhole.step_lt {k : ℕ} (h : b.IsWhole n) (hk : 10 ^ 16*10 ^ k ≤ n) :
    (10 ^ k/2 ^ b.exponent:ℚ) < (b.upper:ℚ)/4-(b.lower:ℚ)/4 := by
  have hpos : (0:ℚ) < 2 ^ b.exponent := by positivity
  have hk' : (10 ^ 16*10 ^ k:ℚ) ≤ n := by exact_mod_cast hk
  rw [← div_le_div_iff_of_pos_right hpos,h.div_eq,mul_div_assoc] at hk'
  rw [b.upper_div]
  by_cases hm : b.significand = 2 ^ 52
  · rw [h.lower_div_of_eq hm]
    rw [hm] at hk'
    push_cast at hk'
    linarith
  · have hhigh : (b.significand:ℚ) < 2 ^ 53 := by exact_mod_cast h.normal.high
    rw [h.lower_div_of_ne hm]
    linarith

end Ends

section Grid
variable {b : Binary} {n d : ℕ} {tie : Tie} {k : ℤ}

lemma nearest_eq (tie : Tie) (num den : ℕ) :
    nearest tie num den = num/den ∨ nearest tie num den = num/den+1 := by
  unfold nearest
  split
  · exact .inl rfl
  · cases tie with
    | up => exact .inr rfl
    | toEven =>
      rcases Nat.mod_two_eq_zero_or_one (num/den) with h | h <;> simp [Tie.choose,h]
  · exact .inr rfl

lemma holds_of_onGrid? (h : b.onGrid? tie k = some d) : b.holds k d = true := by
  unfold onGrid? at h
  dsimp only at h
  split at h
  case h_1 hlow hnext =>
    obtain rfl := Option.some.inj h
    rcases nearest_eq tie (b.value*b.quarterScale k) (b.gridStep k) with heq | heq <;> rwa [heq]
  case h_2 hlow hnext =>
    obtain rfl := Option.some.inj h
    exact hlow
  case h_3 hlow hnext =>
    obtain rfl := Option.some.inj h
    exact hnext
  case h_4 => contradiction

lemma onGrid?_ne_none {low : ℕ} (hlow : b.value*b.quarterScale k/b.gridStep k = low)
    (h : b.holds k low = true ∨ b.holds k (low+1) = true) : b.onGrid? tie k ≠ none := by
  subst hlow
  unfold onGrid?
  rcases h with h | h <;> dsimp only <;> rw [h] <;> split <;> simp_all

lemma gridStep_pos (b : Binary) (k : ℤ) : 0 < b.gridStep k := by
  rw [gridStep,Nat.shiftLeft_eq,Nat.pow_eq]
  positivity

/-- The whole numbers are a grid that has the double on it. -/
lemma IsWhole.onGrid?_zero (h : b.IsWhole n) : b.onGrid? tie (0:ℕ) ≠ none := by
  obtain ⟨c,hc,hquarter,hgrid⟩ := b.exists_scale 0
  have hlow : b.value*b.quarterScale (0:ℕ) = n*b.gridStep (0:ℕ) := by
    rw [← Nat.cast_inj (R := ℚ),hquarter,hgrid,pow_zero,mul_one,h.div_eq,value]
    push_cast
    ring
  refine @onGrid?_ne_none _ _ _ n ?_ (.inl ?_)
  · rw [hlow,Nat.mul_div_cancel _ (b.gridStep_pos _)]
  · rw [holds_iff,pow_zero,mul_one]
    exact h.within

/-- A grid whose step is less than the interval has a point in it: the neighbour below, or else the
one above. -/
lemma IsWhole.onGrid?_of_le {k : ℕ} (h : b.IsWhole n) (hk : 10 ^ 16*10 ^ k ≤ n) :
    b.onGrid? tie k ≠ none := by
  obtain ⟨c,hc,hquarter,hgrid⟩ := b.exists_scale k
  have hstep := h.step_lt hk
  obtain ⟨-,hlower⟩ := h.lower_bounds
  have hupper := b.upper_div
  refine onGrid?_ne_none rfl ?_
  have hbelow := Nat.div_mul_le_self (b.value*b.quarterScale k) (b.gridStep k)
  have habove := Nat.lt_mul_div_succ (b.value*b.quarterScale k) (b.gridStep_pos k)
  generalize b.value*b.quarterScale k/b.gridStep k = low at hbelow habove
  have hvalue : (b.value:ℚ)/4 = b.significand := by
    rw [value]
    push_cast
    ring
  rw [← Nat.cast_le (α := ℚ),hquarter,hgrid,mul_le_mul_iff_left₀ hc,hvalue] at hbelow
  rw [mul_comm (b.gridStep k),← Nat.cast_lt (α := ℚ),hquarter,hgrid,mul_lt_mul_iff_left₀ hc,
    hvalue] at habove
  rw [holds_iff,holds_iff]
  have hnext : ((low+1:ℕ)*10 ^ k/2 ^ b.exponent:ℚ) =
      low*10 ^ k/2 ^ b.exponent+10 ^ k/2 ^ b.exponent := by
    push_cast
    ring
  rw [hnext] at habove ⊢
  rcases lt_or_ge ((b.lower:ℚ)/4) (low*10 ^ k/2 ^ b.exponent) with hin | hout
  · exact .inl ⟨hin.le,by linarith,fun _ => ⟨hin,by linarith⟩⟩
  · exact .inr ⟨by linarith,by linarith,fun _ => ⟨by linarith,by linarith⟩⟩

end Grid

section Order
variable {b : Binary} {n : ℕ}

lemma IsWhole.above_iff (h : b.IsWhole n) (k : ℕ) :
    b.value*b.quarterScale k < b.gridStep k ↔ n < 10 ^ k := by
  obtain ⟨c,hc,hquarter,hgrid⟩ := b.exists_scale k
  have hpos : (0:ℚ) < 2 ^ b.exponent := by positivity
  have hvalue : (b.value:ℚ)/4 = n/2 ^ b.exponent := by
    rw [h.div_eq,value]
    push_cast
    ring
  have hgrid := hgrid 1
  rw [one_mul,Nat.cast_one,one_mul] at hgrid
  rw [← Nat.cast_lt (α := ℚ),hquarter,hgrid,mul_lt_mul_iff_left₀ hc,hvalue,
    div_lt_div_iff_of_pos_right hpos,← Nat.cast_lt (α := ℚ),Nat.cast_pow,Nat.cast_ofNat]

/-- Up to `2 ^ 120` the guess at the order is not above a number. -/
lemma IsWhole.exists_orderGuess (h : b.IsWhole n) :
    ∃ g : ℕ, b.orderGuess = g ∧ 10 ^ g ≤ n := by
  obtain ⟨hlow,hhigh⟩ := h.exponent_bounds
  have hlog : b.significand.log2 = 52 :=
    (Nat.log2_eq_iff (by have := h.normal.low; omega)).mpr ⟨h.normal.low,h.normal.high⟩
  obtain ⟨l,hl⟩ := Int.eq_ofNat_of_zero_le (show 0 ≤ 52+b.exponent by omega)
  have htwo : 2 ^ l ≤ n := by
    have := (h.normal.unitOf b.exponent).low
    rw [← h.eq,← zpow_natCast,← zpow_add₀ (by norm_num)] at this
    have : (2:ℚ) ^ (l:ℤ) ≤ n := by rwa [← hl]
    exact_mod_cast this
  have hten : ∀ l < 121, 10 ^ (l*30103/100000) ≤ 2 ^ l := by decide
  refine ⟨l*30103/100000,?_,(hten l (by omega)).trans htwo⟩
  rw [orderGuess,hlog]
  push_cast
  rw [hl]

/-- The order of a whole number is positive and not more than one above it. -/
lemma IsWhole.exists_order (h : b.IsWhole n) : ∃ p : ℕ, b.order = (p+1:ℕ) ∧ 10 ^ p ≤ n := by
  obtain ⟨g,hg,hpow⟩ := h.exists_orderGuess
  have hfirst : ¬ b.value*b.quarterScale b.orderGuess < b.gridStep b.orderGuess := by
    rw [hg,h.above_iff]
    exact not_lt.mpr hpow
  have hsecond : b.orderGuess+1 = (g+1:ℕ) := by
    rw [hg]
    rfl
  unfold order
  dsimp only
  rw [if_neg (by simpa using hfirst),hsecond]
  split
  case isTrue => exact ⟨g,rfl,hpow⟩
  case isFalse hnot =>
    refine ⟨g+1,by rw [hg]; rfl,?_⟩
    rw [decide_eq_true_eq,h.above_iff] at hnot
    exact not_lt.mp hnot

end Order

end Binary

section Search

/-- The first hit in a range of numbers comes no later than any other. -/
lemma exists_findSome?_range {α : Type} {f : ℕ → Option α} {n i : ℕ} (hi : i < n)
    (hf : f i ≠ none) : ∃ j a, j ≤ i ∧ (List.range n).findSome? f = some a ∧ f j = some a := by
  cases hfound : (List.range n).findSome? f with
  | none => exact absurd (List.findSome?_eq_none_iff.mp hfound i (List.mem_range.mpr hi)) hf
  | some a =>
    obtain ⟨front,j,back,hrange,hj,hnone⟩ := List.findSome?_eq_some_iff.mp hfound
    refine ⟨j,a,?_,rfl,hj⟩
    have hsorted := @List.pairwise_lt_range n
    rw [hrange,List.pairwise_append,List.pairwise_cons] at hsorted
    have hmem : i ∈ front ++ j::back := hrange ▸ List.mem_range.mpr hi
    rcases List.mem_append.mp hmem with hmem | hmem
    · exact absurd (hnone i hmem) hf
    · rcases List.mem_cons.mp hmem with rfl | hmem
      · exact le_rfl
      · exact (hsorted.2.1.1 i hmem).le

/-- The search for the shortest decimal ends before the point. With at most 17 digits there, the last
grid is that of the whole numbers; with more, its step is small against the number. -/
lemma Binary.IsWhole.exists_found {b : Binary} {n : ℕ} (h : b.IsWhole n) (tie : Tie) :
    ∃ d k : ℕ, b.shortest tie = (Numeral.mk d k).dropZeros 17 ∧ b.holds k d = true := by
  obtain ⟨p,horder,hpow⟩ := h.exists_order
  have hlast : ∃ i < 17, i ≤ p ∧ b.onGrid? tie (b.order-(i+1:ℕ)) ≠ none := by
    rw [horder]
    rcases le_or_gt p 16 with hle | hgt
    · refine ⟨p,by omega,le_rfl,?_⟩
      rw [sub_self]
      exact h.onGrid?_zero
    · obtain ⟨k,rfl⟩ := Nat.exists_eq_add_of_le (show 16 ≤ p by omega)
      refine ⟨16,by omega,by omega,?_⟩
      have hk : ((16+k+1:ℕ):ℤ)-(16+1:ℕ) = k := by omega
      rw [hk]
      exact h.onGrid?_of_le (by rwa [← pow_add])
  obtain ⟨i,hi,hip,hsome⟩ := hlast
  obtain ⟨j,found,hj,hfound,hat⟩ := exists_findSome?_range
    (f := fun n => (b.onGrid? tie (b.order-(n+1:ℕ))).map fun d => Numeral.mk d (b.order-(n+1:ℕ)))
    hi (by simpa using hsome)
  obtain ⟨d,hd,rfl⟩ := Option.map_eq_some_iff.mp hat
  obtain ⟨k,hk⟩ := Int.eq_ofNat_of_zero_le (show 0 ≤ b.order-(j+1:ℕ) by omega)
  refine ⟨d,k,?_,?_⟩
  · unfold Binary.shortest
    dsimp only
    rw [hfound,hk]
    rfl
  · rw [hk] at hd
    exact Binary.holds_of_onGrid? hd

end Search

section Digits

/-- Zeros at the end of a whole number keep its value where they are dropped. -/
lemma Numeral.exists_dropZeros (count d k : ℕ) : ∃ s z : ℕ,
    (Numeral.mk d k).dropZeros count = ⟨s,z⟩ ∧ s*10 ^ z = d*10 ^ k := by
  induction count generalizing d k with
  | zero => exact ⟨d,k,rfl,rfl⟩
  | succ count ih =>
    rw [dropZeros]
    split
    case isTrue hzero =>
      obtain ⟨s,z,heq,hvalue⟩ := ih (d/10) (k+1)
      refine ⟨s,z,heq,?_⟩
      rw [hvalue,pow_succ,mul_comm (10 ^ k),← mul_assoc,Nat.div_mul_cancel (Nat.dvd_of_mod_eq_zero hzero)]
    case isFalse => exact ⟨d,k,rfl,rfl⟩

lemma Numeral.text_natCast (s z : ℕ) :
    (Numeral.mk s z).text = Nat.toDigits 10 s ++ List.replicate z '0' := by
  have hpos : (0:ℤ) ≤ z := by omega
  simp [text,fractionDigits,wholeDigits,digits,hpos]

/-- The shortest decimal of a whole number. -/
theorem Binary.IsWhole.exists_text {b : Binary} {n : ℕ} (h : b.IsWhole n) (tie : Tie) :
    ∃ ds, (b.shortest tie).text = ds ∧ ds ≠ [] ∧ (∀ c ∈ ds, c.isDigit = true) ∧
      RoundsTo (ofDigits ds) n := by
  obtain ⟨d,k,hshortest,hholds⟩ := h.exists_found tie
  obtain ⟨s,z,hdrop,hvalue⟩ := Numeral.exists_dropZeros 17 d k
  refine ⟨_,rfl,?_⟩
  rw [hshortest,hdrop,Numeral.text_natCast]
  refine ⟨by simp [Nat.toDigits_ne_nil],fun c hc => ?_,?_⟩
  · exact (List.mem_append.mp hc).elim isDigit_of_mem_toDigits isDigit_of_mem_zeros
  rw [ofDigits_append_zeros,ofDigits_toDigits,hvalue]
  refine Binary.Within.roundsTo h ?_
  rw [Binary.holds_iff] at hholds
  exact_mod_cast hholds

end Digits

section Plain
variable {x : Float} {n : ℕ}

lemma plain_finite {m : ℕ} {e : ℤ} (h : 0 < m) (hm : Normal m) (hn : (n:ℚ) = m*2 ^ e)
    (hb : n ≤ 2 ^ 120) : plain (.ofModel (.pack (.finite .positive m e h))) =
      String.ofList (Binary.shortest .up ⟨m,e⟩).text := by
  have hunpack : (Float.ofModel (.pack (.finite .positive m e h))).toModel.unpack =
      .finite .positive m e h := hm.unpack_pack hn hb .positive h
  unfold plain Parts.ofFloat
  rw [hunpack]
  rfl

/-- The limit of 64 bits is printed above itself. -/
lemma wordLimit_lt_shortest {ds : List Char} {b : Binary} (h : b.IsWhole wordLimit)
    (hds : (b.shortest .up).text = ds) : wordLimit < ofDigits ds := by
  obtain ⟨m,e⟩ := b
  obtain ⟨rfl,rfl⟩ : m = 2 ^ 52 ∧ e = 12 := by
    refine h.normal.unique ⟨by norm_num,by norm_num⟩ (h.eq.symm.trans ?_)
    norm_num [wordLimit]
  have hshortest : Binary.shortest .up ⟨2 ^ 52,12⟩ = ⟨18446744073709552,(3:ℕ)⟩ := by decide
  rw [hshortest,Numeral.text_natCast] at hds
  rw [← hds,ofDigits_append_zeros,ofDigits_toDigits]
  decide

/-- A double that stands for a positive whole number is written with digits alone, and it is the
double nearest to what they denote. They fit into 64 bits if the number does. -/
theorem exists_plain (hx : Denotes x n) (hpos : 0 < n) : ∃ ds, plain x = String.ofList ds ∧
    ds ≠ [] ∧ (∀ c ∈ ds, c.isDigit = true) ∧ RoundsTo (ofDigits ds) n ∧
      (ofDigits ds < wordLimit ↔ n < wordLimit) := by
  generalize hz : (n:ℤ) = z at hx
  cases hx with
  | zero => omega
  | @finite s m n' e h hm hn hb =>
    have hpos' := hm.pos_of_eq hn
    cases s with
    | negative =>
      simp only [Float.Model.UnpackedFloat.Sign.apply] at hz
      omega
    | positive =>
      obtain rfl : n = n' := Int.ofNat_inj.mp hz
      have hwhole : Binary.IsWhole ⟨m,e⟩ n := ⟨hm,hn,hb⟩
      obtain ⟨ds,htext,hne,hdigit,hround⟩ := hwhole.exists_text .up
      refine ⟨ds,by rw [plain_finite h hm hn hb,htext],hne,hdigit,hround,?_,hround.lt_wordLimit⟩
      intro hlt
      refine lt_of_le_of_ne (hround.le_wordLimit hlt) ?_
      rintro rfl
      exact absurd (wordLimit_lt_shortest hwhole htext) hlt.not_gt

end Plain

end LinProg.Decimal
