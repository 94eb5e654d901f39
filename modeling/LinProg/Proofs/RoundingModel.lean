import LinProg.Proofs.NearestDouble

/-!
Rounding and packing in the model of doubles. The residual bits of a mantissa say on which side of
the middle a number lies, so rounding gives the nearest double; a double that is not subnormal
survives being packed.
-/
namespace LinProg.Double
open Float.Model Float.Model.UnpackedFloat

/-- A mantissa with its residual bits stands for a number. -/
def Represents (em : ExtendedMantissa) (x : ℚ) : Prop :=
  match em.roundBit,em.stickyBit with
  | false,false => x = em.mantissa
  | false,true => (em.mantissa:ℚ) < x ∧ x < em.mantissa+1/2
  | true,false => x = em.mantissa+1/2
  | true,true => em.mantissa+1/2 < x ∧ x < em.mantissa+1

lemma Represents.isNearest {em : ExtendedMantissa} {x : ℚ} (h : Represents em x) :
    IsNearest x em.roundedMantissa := by
  obtain ⟨m,round,sticky⟩ := em
  cases round <;> cases sticky
  case false.false =>
    obtain rfl : x = m := h
    exact isNearest_natCast m
  case false.true =>
    obtain ⟨hlow,hhigh⟩ : (m:ℚ) < x ∧ x < m+1/2 := h
    have habs : |x-m| < 1/2 := abs_lt.mpr ⟨by linarith,by linarith⟩
    exact ⟨habs.le,fun he => absurd he habs.ne⟩
  case true.false =>
    obtain rfl : x = m+1/2 := h
    change IsNearest _ (m+m%2)
    refine ⟨abs_le.mpr ?_,fun _ => by omega⟩
    rcases Nat.mod_two_eq_zero_or_one m with hm | hm
    · rw [hm]
      constructor <;> norm_num
    · rw [hm]
      constructor <;> (push_cast; linarith)
  case true.true =>
    obtain ⟨hlow,hhigh⟩ : (m:ℚ)+1/2 < x ∧ x < m+1 := h
    change IsNearest _ (m+1)
    have habs : |x-(m+1:ℕ)| < 1/2 := by
      push_cast
      exact abs_lt.mpr ⟨by linarith,by linarith⟩
    exact ⟨habs.le,fun he => absurd he habs.ne⟩

/-- Shifting a bit out halves the number. -/
lemma Represents.shiftRightOne {em : ExtendedMantissa} {x : ℚ} (h : Represents em x) :
    Represents em.shiftRightOne (x/2) := by
  obtain ⟨m,round,sticky⟩ := em
  have hm : (m:ℚ) = (m%2:ℕ)+2*(m/2:ℕ) := by exact_mod_cast (Nat.mod_add_div m 2).symm
  rcases Nat.mod_two_eq_zero_or_one m with hbit | hbit <;> rw [hbit] at hm <;>
    cases round <;> cases sticky <;>
    simp only [Represents,ExtendedMantissa.shiftRightOne,hbit,bne_self_eq_false,Bool.or_false,
      Bool.or_true,show (1 != 0) = true from rfl] at h ⊢ <;>
    push_cast at hm
  all_goals first | (constructor <;> linarith) | linarith

lemma Represents.shiftRight {em : ExtendedMantissa} {x : ℚ} (h : Represents em x) (k : ℕ) :
    Represents (em >>> k) (x/2 ^ k) := by
  induction k with
  | zero =>
    rw [pow_zero,div_one]
    exact h
  | succ k ih =>
    rw [pow_succ,← div_div]
    exact ih.shiftRightOne

section Rounding
variable {M : ℕ} {E : ℤ}

lemma targetExponent_eq (hM : 52 ≤ M.log2) (hE : -1074 ≤ E) :
    Format.binary64.targetExponent (totalExponent M E) = E+(M.log2-52:ℕ) := by
  change max ((M.log2:ℤ)+1+E-53) (-1074) = _
  omega

/-- The unit of a mantissa, from the position of its leading bit. -/
lemma unitOf_log2 (hM : 52 ≤ M.log2) : UnitOf (M*2 ^ E) (E+(M.log2-52:ℕ)) := by
  have hne : M ≠ 0 := by
    rintro rfl
    simp at hM
  have hlow := Nat.log2_self_le hne
  have hhigh := Nat.lt_log2_self (n := M)
  obtain ⟨k,hk⟩ := Nat.exists_eq_add_of_le hM
  have hpos : (0:ℚ) < 2 ^ E := by positivity
  have hunit : (2:ℚ) ^ (E+(M.log2-52:ℕ)) = 2 ^ E*2 ^ k := by
    rw [hk,Nat.add_sub_cancel_left,zpow_add₀ (by norm_num),zpow_natCast]
  rw [hk] at hlow hhigh
  constructor <;> rw [hunit]
  · calc (2:ℚ) ^ 52*(2 ^ E*2 ^ k) = 2 ^ (52+k)*2 ^ E := by ring
      _ ≤ M*2 ^ E := mul_le_mul_of_nonneg_right (by exact_mod_cast hlow) hpos.le
  · calc (M:ℚ)*2 ^ E < 2 ^ (52+k+1)*2 ^ E :=
        mul_lt_mul_of_pos_right (by exact_mod_cast hhigh) hpos
      _ = 2 ^ 53*(2 ^ E*2 ^ k) := by ring

/-- What is behind the 53rd bit from the top is shifted out. -/
lemma shiftToTargetExponent_eq {k : ℕ} (hM : M.log2 = 52+k) (hE : -1074 ≤ E) :
    shiftToTargetExponent .binary64 M E .exact =
      (ExtendedMantissa.ofMantissaAndAccuracy M .exact >>> k,E+k) := by
  have hk : M.log2-52 = k := by omega
  have hshift : (E+(k:ℤ)-E).toNat = k := by omega
  simp only [shiftToTargetExponent,targetExponent_eq (show 52 ≤ M.log2 by omega) hE,hk,
    shiftToExponent,hshift]

/-- The mantissa that is left is nearest to the number; it has 53 bits or is the next power of two. -/
lemma roundedMantissa_spec {k : ℕ} (hM : M.log2 = 52+k) : ∃ q,
    q = (ExtendedMantissa.ofMantissaAndAccuracy M .exact >>> k).roundedMantissa ∧
      2 ^ 52 ≤ q ∧ q ≤ 2 ^ 53 ∧ RoundsTo (M*2 ^ E) (q*2 ^ (E+k)) := by
  have hk : M.log2-52 = k := by omega
  have hunit : UnitOf (M*2 ^ E) (E+k) := hk ▸ unitOf_log2 (by omega)
  have hdiv : (M*2 ^ E/2 ^ (E+k):ℚ) = M/2 ^ k := by
    rw [zpow_add₀ (by norm_num),zpow_natCast,mul_comm,mul_div_mul_left _ _ (by positivity)]
  have hexact : Represents (.ofMantissaAndAccuracy M .exact) M := rfl
  have hnear := (hexact.shiftRight k).isNearest
  rw [← hdiv] at hnear
  refine ⟨_,rfl,hnear.ge (by exact_mod_cast hunit.div.1),hnear.le ?_,⟨_,_,hunit,hnear,rfl⟩⟩
  have := hunit.div.2
  push_cast
  linarith

/-- A mantissa with enough bits is rounded to the nearest double. -/
theorem roundWithAccuracy_spec (s : Sign) (hM : 52 ≤ M.log2) (hE : -1074 ≤ E) :
    ∃ m e h, roundWithAccuracy .binary64 s M E .exact = .finite s m e h ∧ Normal m ∧
      RoundsTo (M*2 ^ E) (m*2 ^ e) := by
  obtain ⟨k,hk⟩ := Nat.exists_eq_add_of_le hM
  obtain ⟨q,hq,hlow,hhigh,hrounds⟩ := roundedMantissa_spec (E := E) hk
  have hexponent : -1074 ≤ E+k := by omega
  unfold roundWithAccuracy
  rw [shiftToTargetExponent_eq hk hE]
  dsimp only
  rw [← hq]
  rcases hhigh.lt_or_eq with hlt | rfl
  · have hlog : q.log2 = 52+0 := (Nat.log2_eq_iff (by omega)).mpr ⟨hlow,hlt⟩
    rw [shiftToTargetExponent_eq hlog hexponent]
    dsimp only
    rw [Nat.cast_zero,add_zero]
    exact ⟨q,E+k,_,dif_neg (show q ≠ 0 by omega),⟨hlow,hlt⟩,hrounds⟩
  · have hlog : (2 ^ 53).log2 = 52+1 := Nat.log2_two_pow
    rw [shiftToTargetExponent_eq hlog hexponent]
    refine ⟨2 ^ 52,E+k+1,_,rfl,⟨le_rfl,by norm_num⟩,?_⟩
    have hcarry : ((2 ^ 52:ℕ)*2 ^ (E+k+1):ℚ) = (2 ^ 53:ℕ)*2 ^ (E+k) := by
      rw [zpow_add_one₀ (by norm_num)]
      push_cast
      ring
    rwa [hcarry]

/-- Any mantissa is rounded to the nearest double, if that is not subnormal. -/
theorem round_spec (s : Sign) (hM : 0 < M) (hE : -1000 ≤ E) :
    ∃ m e h, UnpackedFloat.round .binary64 s M E = .finite s m e h ∧ Normal m ∧
      RoundsTo (M*2 ^ E) (m*2 ^ e) := by
  obtain ⟨j,hj⟩ : ∃ j, j = 52-M.log2 := ⟨_,rfl⟩
  have hdecrease : decreaseExponent M E (Format.binary64.targetExponent (totalExponent M E)) =
      (M*2 ^ j,E-j) := by
    have htarget : Format.binary64.targetExponent (totalExponent M E) = E+M.log2-52 := by
      change max ((M.log2:ℤ)+1+E-53) (-1074) = _
      omega
    have hshift : (E-(E+M.log2-52)).toNat = j := by omega
    simp only [decreaseExponent,htarget,hshift,Nat.shiftLeft_eq]
  have hlog : 52 ≤ (M*2 ^ j).log2 := by
    rw [Nat.le_log2 (by positivity)]
    calc 2 ^ 52 ≤ 2 ^ (M.log2+j) := Nat.pow_le_pow_right (by norm_num) (by omega)
      _ = 2 ^ M.log2*2 ^ j := pow_add _ _ _
      _ ≤ M*2 ^ j := Nat.mul_le_mul_right _ (Nat.log2_self_le hM.ne')
  have hvalue : ((M*2 ^ j:ℕ)*2 ^ (E-j):ℚ) = M*2 ^ E := by
    rw [zpow_sub₀ (by norm_num),zpow_natCast]
    push_cast
    field_simp
  have hspec := roundWithAccuracy_spec s hlog (show -1074 ≤ E-j by omega)
  rw [hvalue] at hspec
  rwa [UnpackedFloat.round,hdecrease]

end Rounding

section Packing

/-- The sign is the top bit, above the exponent and the mantissa. -/
lemma unpackSign_packComponents {spec : Format} (s : Sign) (e : BitVec spec.exponentBits)
    (m : BitVec spec.mantissaBitsWithoutImplicit) :
    unpackSign (packComponents spec s e m) = s.toBitVec := by
  ext i hi
  have hzero : i = 0 := Nat.lt_one_iff.mp hi
  change (BitVec.cast _ (BitVec.extractLsb (spec.mantissaBitsWithoutImplicit+spec.exponentBits)
    (spec.mantissaBitsWithoutImplicit+spec.exponentBits) (s.toBitVec ++ e ++ m)))[i] = _
  simp [BitVec.getLsbD_append,BitVec.getElem_append,hzero]

lemma ofBitVec_toBitVec (s : Sign) : Sign.ofBitVec s.toBitVec = s := by cases s <;> rfl

/-- The leading bit of a significand is not stored, but put back. -/
lemma Normal.toNat_append {m : ℕ} (hm : Normal m) : (1#1 ++ BitVec.ofNat 52 m).toNat = m := by
  have hlow := hm.low
  have hhigh := hm.high
  rw [BitVec.toNat_append,← Nat.shiftLeft_add_eq_or_of_lt (BitVec.isLt _),BitVec.toNat_ofNat,
    BitVec.toNat_ofNat,Nat.shiftLeft_eq]
  omega

/-- Bits whose exponent is neither the least nor the greatest are a double that is not subnormal. -/
lemma unpack_of_components {b : BitVec Format.binary64.numBits} {x : BitVec 11} {y : BitVec 52}
    {s : Sign} {m : ℕ} {e : ℤ} (h : 0 < m) (hexponent : unpackExponent b = x)
    (hmantissa : unpackMantissa b = y) (hsign : unpackSign b = s.toBitVec) (hnotAll : x ≠ -1#11)
    (hnotZero : x ≠ 0#11) (hm : (1#1 ++ y).toNat = m) (he : (x.toNat:ℤ)-((1023:ℕ)+52) = e) :
    UnpackedFloat.unpack .binary64 b = .finite s m e h := by
  subst hexponent hmantissa hm he
  have hsign : Sign.ofBitVec (unpackSign b) = s := by rw [hsign,ofBitVec_toBitVec]
  subst hsign
  change (if unpackExponent b = -1#11 then _ else if unpackExponent b = 0#11 then _ else _) = _
  rw [if_neg hnotAll,if_neg hnotZero]
  rfl

theorem unpack_pack (s : Sign) {m : ℕ} {e : ℤ} (h : 0 < m) (hm : Normal m) (hlow : -1074 ≤ e)
    (hhigh : e ≤ 971) : (Float.Model.pack (.finite s m e h)).unpack = .finite s m e h := by
  obtain ⟨b,hb⟩ : ∃ b : ℕ, (b:ℤ) = e+1075 := ⟨(e+1075).toNat,by omega⟩
  have hbits : (BitVec.ofNat 11 b).toNat = b := by
    rw [BitVec.toNat_ofNat]
    omega
  have hlog : m.log2 = 52 := (Nat.log2_eq_iff h.ne').mpr ⟨hm.low,hm.high⟩
  have hpack : UnpackedFloat.pack .binary64 (.finite s m e h) =
      packComponents .binary64 s (BitVec.ofNat 11 b) (BitVec.ofNat 52 m) := by
    have hbiased : (e+Format.binary64.exponentBias+52).toNat = b := by
      change (e+(1023:ℕ)+52).toNat = b
      omega
    unfold UnpackedFloat.pack
    change (if 2 ^ 11 ≤ (e+Format.binary64.exponentBias+52).toNat+1 then _ else
      if m.log2+1 = 53 then _ else _) = _
    rw [hbiased,if_neg (by omega),if_pos (by omega)]
    change packComponents .binary64 s (BitVec.ofNat 11 (e+Format.binary64.exponentBias+52).toNat) _ = _
    rw [hbiased]
  have hnotAll : BitVec.ofNat 11 b ≠ -1#11 := by
    intro he
    have := congrArg BitVec.toNat he
    rw [hbits] at this
    change b = 2047 at this
    omega
  have hnotZero : BitVec.ofNat 11 b ≠ 0#11 := by
    intro he
    have := congrArg BitVec.toNat he
    rw [hbits] at this
    change b = 0 at this
    omega
  change UnpackedFloat.unpack .binary64 (UnpackedFloat.pack .binary64 (.finite s m e h)) = _
  rw [hpack]
  exact unpack_of_components h unpackExponent_packComponents unpackMantissa_packComponents
    (unpackSign_packComponents s _ _) hnotAll hnotZero hm.toNat_append (by omega)

end Packing

end LinProg.Double
