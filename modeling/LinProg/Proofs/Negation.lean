import LinProg.Proofs.RoundingModel

/-!
The sign of a double. What the bits of a double unpack to survives being packed again with the other
sign, so a negated double compares with zero as an equal just when the double does. A product knows
only the signs of its factors together, and a number on one side of zero is negated to the other.
-/
namespace LinProg.Double
open Float.Model Float.Model.UnpackedFloat

lemma normal_append (y : BitVec 52) : Normal (1#1 ++ y).toNat := by
  have happend : (1#1 ++ y).toNat = 2 ^ 52+y.toNat := by
    rw [BitVec.toNat_append,← Nat.shiftLeft_add_eq_or_of_lt y.isLt]
    rfl
  have := y.isLt
  rw [happend]
  exact ⟨by omega,by omega⟩

/-- Bits whose exponent is the least one hold a mantissa without a leading bit. -/
lemma unpack_of_exponent_eq_zero {b : BitVec Format.binary64.numBits} {y : BitVec 52} {s : Sign}
    (h : 0 < y.toNat) (hexponent : unpackExponent b = 0#11) (hmantissa : unpackMantissa b = y)
    (hsign : unpackSign b = s.toBitVec) :
    UnpackedFloat.unpack .binary64 b = .finite s y.toNat (-1074) h := by
  subst hmantissa
  have hsign : Sign.ofBitVec (unpackSign b) = s := by rw [hsign,ofBitVec_toBitVec]
  subst hsign
  have hne : unpackMantissa b ≠ 0#52 := fun hzero => h.ne' (by rw [hzero]; rfl)
  unfold UnpackedFloat.unpack
  dsimp only
  rw [if_neg (by rw [hexponent]; decide),if_pos hexponent,dif_neg hne]
  rw [hexponent]
  rfl

/-- A mantissa without the leading bit is stored under the exponent zero. -/
lemma unpack_pack_subnormal (s : Sign) {y : BitVec 52} (h : 0 < y.toNat) :
    (Float.Model.pack (.finite s y.toNat (-1074) h)).unpack = .finite s y.toNat (-1074) h := by
  have hlog : y.toNat.log2 < 52 := (Nat.log2_lt h.ne').mpr y.isLt
  have hpack : UnpackedFloat.pack .binary64 (.finite s y.toNat (-1074) h) =
      packComponents .binary64 s 0#11 y := by
    have hexponent : ¬ 2 ^ Format.binary64.exponentBits ≤ (-1074+(Format.binary64.exponentBias:ℤ)+
        (Format.binary64.mantissaBitsWithoutImplicit:ℤ)).toNat+1 := by decide
    have hmantissa : ¬ y.toNat.log2+1 = Format.binary64.mantissaBits := by
      change ¬ y.toNat.log2+1 = 53
      omega
    unfold UnpackedFloat.pack
    dsimp only
    rw [if_neg hexponent,if_neg hmantissa,BitVec.ofNat_toNat,BitVec.setWidth_eq]
  change UnpackedFloat.unpack .binary64 (UnpackedFloat.pack .binary64 _) = _
  rw [hpack]
  exact unpack_of_exponent_eq_zero h unpackExponent_packComponents unpackMantissa_packComponents
    (unpackSign_packComponents s _ _)

/-- The number that some bits unpack to keeps its size when it is packed with the other sign. -/
theorem unpack_pack_neg (b : BitVec Format.binary64.numBits) :
    (Float.Model.pack (UnpackedFloat.unpack .binary64 b).neg).unpack =
      (UnpackedFloat.unpack .binary64 b).neg := by
  unfold UnpackedFloat.unpack
  dsimp only
  by_cases hall : unpackExponent b = -1#11
  · rw [if_pos hall]
    generalize Sign.ofBitVec (unpackSign b) = s
    by_cases hy : unpackMantissa b = 0#52
    · rw [if_pos hy]
      cases s <;> rfl
    · rw [if_neg hy]
      rfl
  · rw [if_neg hall]
    by_cases hzero : unpackExponent b = 0#11
    · rw [if_pos hzero]
      by_cases hy : unpackMantissa b = 0#52
      · rw [dif_pos hy]
        generalize Sign.ofBitVec (unpackSign b) = s
        cases s <;> rfl
      · rw [dif_neg hy]
        have hexponent : ((unpackExponent b).toNat:ℤ)-((Format.binary64.exponentBias:ℤ)+
            (Format.binary64.mantissaBitsWithoutImplicit:ℤ))+1 = -1074 := by
          rw [hzero]
          rfl
        rw [hexponent]
        exact unpack_pack_subnormal _ _
    · rw [if_neg hzero]
      have hlow : (unpackExponent b).toNat ≠ 0 := fun h => hzero (BitVec.eq_of_toNat_eq h)
      have hhigh : (unpackExponent b).toNat ≠ 2047 := fun h => hall (BitVec.eq_of_toNat_eq h)
      have hlt : (unpackExponent b).toNat < 2048 := (unpackExponent b).isLt
      have hexponent : (Format.binary64.exponentBias:ℤ)+
          (Format.binary64.mantissaBitsWithoutImplicit:ℤ) = 1075 := by decide
      refine unpack_pack _ _ (normal_append _) ?_ ?_ <;> rw [hexponent] <;> omega

theorem unpack_neg (x : Float) : (-x).toModel.unpack = x.toModel.unpack.neg :=
  unpack_pack_neg x.toModel.toBits.toBitVec

/-- Negation keeps the doubles that count as zero, which are two, and no others become one. -/
theorem neg_beq_zero (x : Float) : (-x == 0) = (x == 0) := by
  have hzero : (0:Float).toModel.unpack = .zero .positive := by rfl
  change ((-x).toModel.unpack.compare (0:Float).toModel.unpack == some .eq) =
    (x.toModel.unpack.compare (0:Float).toModel.unpack == some .eq)
  rw [hzero,unpack_neg]
  cases x.toModel.unpack with
  | notANumber => rfl
  | infinity s => cases s <;> rfl
  | zero s => cases s <;> rfl
  | finite s m e h => cases s <;> rfl

lemma mul_eq (x y : Float) : x*y =
    .ofModel (.pack (UnpackedFloat.mul .binary64 x.toModel.unpack y.toModel.unpack)) := rfl

lemma sign_mul_neg (s t : Sign) : s * -t = -s * t := by
  cases s <;> cases t <;> rfl

lemma unpacked_mul_neg (u v : UnpackedFloat) :
    UnpackedFloat.mul .binary64 u v.neg = UnpackedFloat.mul .binary64 u.neg v := by
  cases u <;> cases v <;> try rfl
  all_goals
    dsimp only [UnpackedFloat.mul,UnpackedFloat.neg]
    rw [sign_mul_neg]

/-- It does not matter which of two factors is negated. -/
theorem mul_neg_eq_neg_mul (x y : Float) : x * -y = -x * y := by
  rw [mul_eq,mul_eq,unpack_neg,unpack_neg,unpacked_mul_neg]

lemma le_eq (x y : Float) : x ≤ y ↔
    UnpackedFloat.le x.toModel.unpack y.toModel.unpack = true := decide_eq_true_iff

lemma lt_eq (x y : Float) : x < y ↔
    UnpackedFloat.lt x.toModel.unpack y.toModel.unpack = true := decide_eq_true_iff

/-- A number that is not zero is negated from one side of zero to the other. -/
theorem negated_sides {x : Float} (hne : (x == 0) = false) (hnan : x.isNaN = false) :
    (0 ≤ -x ↔ ¬ 0 ≤ x) ∧ (-x < 0 ↔ ¬ x < 0) := by
  have hzero : (0:Float).toModel.unpack = .zero .positive := by rfl
  change ((x.toModel.unpack.compare (0:Float).toModel.unpack == some .eq) = false) at hne
  change (x.toModel.unpack.isNaN = false) at hnan
  rw [le_eq,le_eq,lt_eq,lt_eq,unpack_neg,hzero]
  rw [hzero] at hne
  cases hx : x.toModel.unpack with
  | notANumber =>
    rw [hx] at hnan
    contradiction
  | infinity s => cases s <;> decide
  | zero s =>
    rw [hx] at hne
    contradiction
  | finite s m e h =>
    cases s with
    | negative =>
      exact ⟨iff_of_true rfl Bool.false_ne_true,
        iff_of_false Bool.false_ne_true (not_not_intro rfl)⟩
    | positive =>
      exact ⟨iff_of_false Bool.false_ne_true (not_not_intro rfl),
        iff_of_true rfl Bool.false_ne_true⟩

end LinProg.Double
