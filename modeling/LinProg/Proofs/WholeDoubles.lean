import LinProg.Proofs.RoundingModel
import LinProg.Scalar

/-!
Doubles that stand for whole numbers up to `2 ^ 120`. Natural numbers below `2 ^ 64` turn into such
doubles, and adding one of them to such a double gives another, since an addend that small cannot
move a sum past the bound. Comparisons of these doubles are those of the numbers.
-/
namespace LinProg.Double
open Float.Model Float.Model.UnpackedFloat

/-- A double stands for a whole number up to `2 ^ 120`, and not for minus zero. -/
inductive Denotes : Float → ℤ → Prop
  | zero : Denotes (.ofModel (.pack (.zero .positive))) 0
  | finite (s : Sign) {m n : ℕ} {e : ℤ} (h : 0 < m) (hm : Normal m) (hn : (n:ℚ) = m*2 ^ e)
      (hb : n ≤ 2 ^ 120) : Denotes (.ofModel (.pack (.finite s m e h))) (s.apply n)

section Parts
variable {m n : ℕ} {e : ℤ}

lemma Normal.pos_of_eq (hm : Normal m) (hn : (n:ℚ) = m*2 ^ e) : 0 < n := by
  have hm0 : 0 < m := lt_of_lt_of_le (by norm_num) hm.low
  have : (0:ℚ) < n := by
    rw [hn]
    positivity
  exact_mod_cast this

lemma Normal.exponent_bounds (hm : Normal m) (hn : (n:ℚ) = m*2 ^ e) (hb : n ≤ 2 ^ 120) :
    -52 ≤ e ∧ e ≤ 68 := by
  have hunit := hm.unitOf e
  rw [← hn] at hunit
  have hpos : (1:ℚ) ≤ n := by exact_mod_cast hm.pos_of_eq hn
  have hb' : (n:ℚ) ≤ 2 ^ 120 := by exact_mod_cast hb
  constructor
  · by_contra hlt
    have hle : (2:ℚ) ^ e ≤ 2 ^ (-53:ℤ) := zpow_le_zpow_right₀ (by norm_num) (by omega)
    have := hunit.high
    norm_num at hle this
    linarith
  · by_contra hgt
    have hle : (2:ℚ) ^ (69:ℤ) ≤ 2 ^ e := zpow_le_zpow_right₀ (by norm_num) (by omega)
    have hlt : (2:ℚ) ^ 120 < 2 ^ 52*2 ^ (69:ℤ) := by norm_num
    have := hunit.low
    linarith

/-- Packing keeps a double that stands for a whole number. -/
lemma Normal.unpack_pack (hm : Normal m) (hn : (n:ℚ) = m*2 ^ e) (hb : n ≤ 2 ^ 120) (s : Sign)
    (h : 0 < m) : (Float.Model.pack (.finite s m e h)).unpack = .finite s m e h := by
  obtain ⟨hlow,hhigh⟩ := hm.exponent_bounds hn hb
  exact Double.unpack_pack s h hm (by omega) (by omega)

/-- Of two doubles the one with the greater exponent is greater. -/
lemma Normal.lt_of_exponent_lt {m' n' : ℕ} {e' : ℤ} (hm : Normal m) (hm' : Normal m')
    (hn : (n:ℚ) = m*2 ^ e) (hn' : (n':ℚ) = m'*2 ^ e') (he : e < e') : n < n' := by
  have hle : (2:ℚ) ^ (e+1) ≤ 2 ^ e' := zpow_le_zpow_right₀ (by norm_num) he
  rw [zpow_add_one₀ (by norm_num)] at hle
  have hhigh := (hm.unitOf e).high
  have hlow := (hm'.unitOf e').low
  rw [← hn] at hhigh
  rw [← hn'] at hlow
  have : (n:ℚ) < n' := by linarith
  exact_mod_cast this

lemma compare_map {α β : Type} [LinearOrder α] [LinearOrder β] {f : α → β} (hf : StrictMono f)
    (x y : α) : compare (f x) (f y) = compare x y := by
  rw [← cmp_eq_compare,← cmp_eq_compare,hf.cmp_map_eq]

/-- Doubles with the same exponent compare like their significands. -/
lemma Normal.compare_eq {m' n' : ℕ} {e' : ℤ} (hm : Normal m) (hm' : Normal m')
    (hn : (n:ℚ) = m*2 ^ e) (hn' : (n':ℚ) = m'*2 ^ e') :
    (compare e e').then (compare m m') = compare n n' := by
  rcases lt_trichotomy e e' with he | rfl | he
  · rw [compare_lt_iff_lt.mpr he,compare_lt_iff_lt.mpr (hm.lt_of_exponent_lt hm' hn hn' he)]
    rfl
  · have hscale : StrictMono fun k : ℕ => (k:ℚ)*2 ^ e := fun k l hkl =>
      mul_lt_mul_of_pos_right (by exact_mod_cast hkl) (by positivity)
    rw [compare_eq_iff_eq.mpr rfl]
    calc compare m m' = compare ((m:ℚ)*2 ^ e) (m'*2 ^ e) := (compare_map hscale m m').symm
      _ = compare (n:ℚ) n' := by rw [hn,hn']
      _ = compare n n' := compare_map Nat.strictMono_cast n n'
  · rw [compare_gt_iff_gt.mpr he,compare_gt_iff_gt.mpr (hm'.lt_of_exponent_lt hm hn' hn he)]
    rfl

end Parts

section Signs
variable {n : ℕ} {a b : ℤ}

lemma apply_lt_zero (h : 0 < n) : Sign.negative.apply (n:ℤ) < 0 := by
  simp only [Sign.apply]
  omega

lemma zero_lt_apply (h : 0 < n) : 0 < Sign.positive.apply (n:ℤ) := by
  simp only [Sign.apply]
  omega

lemma some_lt_eq_compare (h : a < b) : some .lt = some (compare a b) :=
  congrArg some (compare_lt_iff_lt.mpr h).symm

lemma some_gt_eq_compare (h : b < a) : some .gt = some (compare a b) :=
  congrArg some (compare_gt_iff_gt.mpr h).symm

lemma compare_neg_natCast (n n' : ℕ) : compare (-n:ℤ) (-n':ℤ) = (compare n n').swap := by
  have hanti : StrictAnti fun k : ℕ => (-k:ℤ) := fun k l hkl => by
    dsimp only
    omega
  rw [← cmp_eq_compare,← cmp_eq_compare,cmp_swap]
  exact hanti.cmp_map_eq n n'

end Signs

section Denotations
variable {x y : Float} {a b : ℤ}

/-- One double stands for a number at most. -/
lemma Denotes.unique (hx : Denotes x a) (hy : Denotes y a) : x = y := by
  cases hx with
  | zero =>
    generalize hz : (0:ℤ) = z at hy
    cases hy with
    | zero => rfl
    | finite s h hm hn hb =>
      have := hm.pos_of_eq hn
      cases s <;> simp only [Sign.apply] at hz <;> omega
  | @finite s m n e h hm hn hb =>
    generalize hz : s.apply n = z at hy
    have hpos := hm.pos_of_eq hn
    cases hy with
    | zero => cases s <;> simp only [Sign.apply] at hz <;> omega
    | @finite s' m' n' e' h' hm' hn' hb' =>
      have hpos' := hm'.pos_of_eq hn'
      have hparts : s = s' ∧ n = n' := by
        cases s <;> cases s' <;> simp only [Sign.apply] at hz <;> first | omega | skip
        all_goals exact ⟨rfl,by omega⟩
      obtain ⟨rfl,rfl⟩ := hparts
      obtain ⟨rfl,rfl⟩ := hm.unique hm' (hn.symm.trans hn')
      rfl

/-- Comparing the doubles compares the numbers. -/
lemma Denotes.compare_eq (hx : Denotes x a) (hy : Denotes y b) :
    x.toModel.unpack.compare y.toModel.unpack = some (compare a b) := by
  have hzero : (Float.Model.pack (.zero .positive)).unpack = .zero .positive := by rfl
  cases hx with
  | zero =>
    cases hy with
    | zero => rfl
    | finite s h hm hn hb =>
      have hpos := hm.pos_of_eq hn
      rw [hzero,hm.unpack_pack hn hb]
      cases s with
      | negative => exact some_gt_eq_compare (apply_lt_zero hpos)
      | positive => exact some_lt_eq_compare (zero_lt_apply hpos)
  | @finite s m n e h hm hn hb =>
    have hpos := hm.pos_of_eq hn
    rw [hm.unpack_pack hn hb]
    cases hy with
    | zero =>
      rw [hzero]
      cases s with
      | negative => exact some_lt_eq_compare (apply_lt_zero hpos)
      | positive => exact some_gt_eq_compare (zero_lt_apply hpos)
    | @finite s' m' n' e' h' hm' hn' hb' =>
      have hpos' := hm'.pos_of_eq hn'
      have hsize := hm.compare_eq hm' hn hn'
      rw [hm'.unpack_pack hn' hb']
      cases s <;> cases s'
      case negative.negative =>
        refine congrArg some ?_
        rw [hsize]
        exact (compare_neg_natCast n n').symm
      case negative.positive =>
        exact some_lt_eq_compare ((apply_lt_zero hpos).trans (zero_lt_apply hpos'))
      case positive.negative =>
        exact some_gt_eq_compare ((apply_lt_zero hpos').trans (zero_lt_apply hpos))
      case positive.positive =>
        refine congrArg some ?_
        rw [hsize]
        exact (compare_map Nat.strictMono_cast n n').symm

lemma Denotes.lt_iff (hx : Denotes x a) (hy : Denotes y b) : x < y ↔ a < b := by
  change decide (x.toModel.unpack.lt y.toModel.unpack = true) = true ↔ _
  rw [UnpackedFloat.lt,hx.compare_eq hy]
  simp [compare_lt_iff_lt]

lemma Denotes.beq_iff (hx : Denotes x a) (hy : Denotes y b) : x == y ↔ a = b := by
  change (x.toModel.unpack.compare y.toModel.unpack == some .eq) = true ↔ _
  rw [hx.compare_eq hy]
  simp

/-- Changing the sign of a double changes that of a number other than zero. -/
lemma Denotes.neg (hx : Denotes x a) (ha : a ≠ 0) : Denotes (-x) (-a) := by
  cases hx with
  | zero => contradiction
  | @finite s m n e h hm hn hb =>
    have hneg : -Float.ofModel (.pack (.finite s m e h)) =
        .ofModel (.pack (.finite (-s) m e h)) := by
      change Float.ofModel (.pack (Float.Model.pack (.finite s m e h)).unpack.neg) = _
      rw [hm.unpack_pack hn hb]
      rfl
    have hz : -s.apply n = (-s).apply n := by
      cases s
      · exact neg_neg _
      · rfl
    rw [hneg,hz]
    exact .finite (-s) h hm hn hb

/-- The double nearest to a whole number is a whole number, and not past the bound. -/
lemma RoundsTo.exists_bounded {M : ℕ} {y : ℚ} (hr : RoundsTo M y) (hM : M < 2 ^ 120+2 ^ 67) :
    ∃ n : ℕ, y = n ∧ n ≤ 2 ^ 120 := by
  obtain ⟨n,rfl⟩ := hr.exists_natCast
  have hM' : (M:ℚ) < 2 ^ (52+68)+2 ^ 68/2 := by
    have : (M:ℚ) < 2 ^ 120+2 ^ 67 := by exact_mod_cast hM
    linarith
  exact ⟨n,rfl,by exact_mod_cast hr.le_two_pow hM'⟩

lemma two_pow_wordLimit : (2:ℚ) ^ (52+12) = wordLimit := by norm_num [wordLimit]

/-- Numbers of 64 bits round up to the limit at most. -/
lemma RoundsTo.le_wordLimit {N n : ℕ} (hr : RoundsTo N n) (hN : N < wordLimit) :
    n ≤ wordLimit := by
  have hlt : (N:ℚ) < wordLimit := by exact_mod_cast hN
  have hle : (n:ℚ) ≤ 2 ^ (52+12) := by
    refine hr.le_two_pow ?_
    rw [two_pow_wordLimit]
    linarith
  rw [two_pow_wordLimit] at hle
  exact_mod_cast hle

/-- What rounds to a number below the limit is below it. -/
lemma RoundsTo.lt_wordLimit {N n : ℕ} (hr : RoundsTo N n) (hn : n < wordLimit) :
    N < wordLimit := by
  by_contra hge
  have hle : (2:ℚ) ^ (52+12) ≤ n := by
    refine hr.two_pow_le ?_
    rw [two_pow_wordLimit]
    exact_mod_cast not_lt.mp hge
  rw [two_pow_wordLimit] at hle
  have hle : wordLimit ≤ n := by exact_mod_cast hle
  omega

lemma Normal.exponent_bounds_of_roundsTo {M m : ℕ} {e : ℤ} (hm : Normal m)
    (hr : RoundsTo M (m*2 ^ e)) (hM : M < 2 ^ 120+2 ^ 67) : -52 ≤ e ∧ e ≤ 68 := by
  obtain ⟨n,hn,hb⟩ := hr.exists_bounded hM
  exact hm.exponent_bounds hn.symm hb

lemma denotes_of_roundsTo {M m : ℕ} {e : ℤ} (s : Sign) (h : 0 < m) (hm : Normal m)
    (hr : RoundsTo M (m*2 ^ e)) (hM : M < 2 ^ 120+2 ^ 67) : ∃ n : ℕ, RoundsTo M n ∧
      Denotes (.ofModel (.pack (.finite s m e h))) (s.apply n) := by
  obtain ⟨n,hn,hb⟩ := hr.exists_bounded hM
  exact ⟨n,hn ▸ hr,.finite s h hm hn.symm hb⟩

lemma denotes_zero : Denotes 0 0 := by
  have hzero : (0:Float) = .ofModel (.pack (.zero .positive)) := by rfl
  rw [hzero]
  exact .zero

/-- A positive double, rounded once more after its mantissa has been widened, is the same number. -/
lemma exists_roundWithAccuracy {M : ℕ} {E : ℤ} {x : ℚ} (hM : 52 ≤ M.log2) (hE : -1074 ≤ E)
    (hx : (M*2 ^ E:ℚ) = x) : ∃ m e h, Float.ofModel (.pack
      (roundWithAccuracy .binary64 .positive M E .exact)) =
        .ofModel (.pack (.finite .positive m e h)) ∧ Normal m ∧ RoundsTo x (m*2 ^ e) := by
  obtain ⟨m,e,h,hround,hm,hr⟩ := roundWithAccuracy_spec .positive hM hE
  exact ⟨m,e,h,by rw [hround],hm,hx ▸ hr⟩

lemma ofNat_of_le {n : ℕ} (hn : 2 ^ 53 ≤ n) : ∃ m e h, Float.ofNat n =
    .ofModel (.pack (.finite .positive m e h)) ∧ Normal m ∧ RoundsTo n (m*2 ^ e) := by
  have hpos : n ≠ 0 := by omega
  have hwide : UnpackedFloat.ofScientific .binary64 n 0 =
      roundWithAccuracy .binary64 .positive ((n <<< 53)*10 ^ 0) (-53+0) .exact := by
    unfold UnpackedFloat.ofScientific
    rw [dif_neg hpos,if_neg (by norm_num),if_neg (by simp),if_pos le_rfl]
    rfl
  have hof : Float.ofNat n = .ofModel (.pack (UnpackedFloat.ofScientific .binary64 n 0)) := by
    change Float.ofScientific n false 0 = _
    unfold Float.ofScientific
    rw [dif_neg (by omega)]
    rfl
  rw [hof,hwide]
  apply exists_roundWithAccuracy
  · rw [pow_zero,mul_one,Nat.shiftLeft_eq,Nat.le_log2 (by positivity)]
    omega
  · norm_num
  · rw [Nat.shiftLeft_eq]
    push_cast
    norm_num
    ring

lemma ofNat_of_lt {n : ℕ} (hpos : 0 < n) (hn : n < 2 ^ 53) : ∃ m e h, Float.ofNat n =
    .ofModel (.pack (.finite .positive m e h)) ∧ Normal m ∧ RoundsTo n (m*2 ^ e) := by
  obtain ⟨m,e,h,hround,hm,hr⟩ := round_spec .positive hpos (show -1000 ≤ 0 by norm_num)
  rw [zpow_zero,mul_one] at hr
  obtain ⟨hlow,hhigh⟩ := hm.exponent_bounds_of_roundsTo hr (by omega)
  have hone : (Float.ofBits 0x3FF0000000000000).toModel.unpack =
      .finite .positive (2 ^ 52) (-52) (by norm_num) := by rfl
  have hn64 : n.toUInt64.toNat = n := Nat.mod_eq_of_lt (by omega)
  have hplain : n.toUInt64.toFloat = .ofModel (.pack (.finite .positive m e h)) := by
    have hgt : compare (n:ℤ) 0 = .gt := compare_gt_iff_gt.mpr (by omega)
    change Float.ofModel (.pack (normalize .binary64 (n.toUInt64.toNat:ℤ) 0 .positive)) = _
    rw [hn64,UnpackedFloat.normalize,hgt]
    change Float.ofModel (.pack (UnpackedFloat.round .binary64 .positive (n:ℤ).toNat 0)) = _
    rw [Int.toNat_natCast,hround]
  have hof : Float.ofNat n = n.toUInt64.toFloat*Float.ofBits 0x3FF0000000000000 := by
    change Float.ofScientific n false 0 = _
    unfold Float.ofScientific
    rw [dif_pos ⟨hn,by norm_num⟩]
    rfl
  have hmul : Float.ofNat n = .ofModel (.pack
      (roundWithAccuracy .binary64 .positive (m*2 ^ 52) (e+-52) .exact)) := by
    rw [hof,hplain]
    change Float.ofModel (.pack (UnpackedFloat.mul .binary64
      (Float.Model.pack (.finite .positive m e h)).unpack
        (Float.ofBits 0x3FF0000000000000).toModel.unpack)) = _
    rw [hone,unpack_pack .positive h hm (by omega) (by omega)]
    rfl
  have hvalue : ((m*2 ^ 52:ℕ)*2 ^ (e+-52):ℚ) = m*2 ^ e := by
    rw [zpow_add₀ (by norm_num)]
    push_cast
    norm_num
    ring
  have hlog : 52 ≤ (m*2 ^ 52).log2 := by
    rw [Nat.le_log2 (by positivity)]
    omega
  obtain ⟨m',e',h',hx,hm',hr'⟩ := exists_roundWithAccuracy hlog (by omega) hvalue
  refine ⟨m',e',h',hmul.trans hx,hm',?_⟩
  rw [hr'.unique (hm.roundsTo e)]
  exact hr

/-- A natural number of 64 bits turns into the double nearest to it. -/
theorem exists_denotes_ofNat {n : ℕ} (hpos : 0 < n) (hn : n < 2 ^ 64) :
    ∃ k : ℕ, RoundsTo n k ∧ Denotes (Float.ofNat n) k := by
  obtain ⟨m,e,h,hx,hm,hr⟩ : ∃ m e h, Float.ofNat n =
      .ofModel (.pack (.finite .positive m e h)) ∧ Normal m ∧ RoundsTo n (m*2 ^ e) := by
    rcases lt_or_ge n (2 ^ 53) with hlt | hge
    · exact ofNat_of_lt hpos hlt
    · exact ofNat_of_le hge
  rw [hx]
  exact denotes_of_roundsTo .positive h hm hr (by omega)

/-- A whole number, in whatever unit it is given, is rounded to a double that stands for one. -/
lemma exists_denotes_normalize {M c : ℤ} {E : ℤ} (hM : (M*2 ^ E:ℚ) = c) (hE : -1000 ≤ E)
    (hc : |c| < 2 ^ 120+2 ^ 67) :
    ∃ z, Denotes (.ofModel (.pack (normalize .binary64 M E .positive))) z := by
  have hpos : (0:ℚ) < 2 ^ E := by positivity
  obtain ⟨hlow,hhigh⟩ := abs_lt.mp hc
  have hround : ∀ (s : Sign) (N k : ℕ), (N*2 ^ E:ℚ) = k → 0 < N → k < 2 ^ 120+2 ^ 67 →
      ∃ z, Denotes (.ofModel (.pack (UnpackedFloat.round .binary64 s N E))) z := by
    intro s N k hk hN hb
    obtain ⟨m,e,h,hround,hm,hr⟩ := round_spec s hN hE
    rw [hk] at hr
    obtain ⟨n,-,hd⟩ := denotes_of_roundsTo s h hm hr hb
    exact ⟨_,by rwa [hround]⟩
  unfold UnpackedFloat.normalize
  rcases lt_trichotomy M 0 with hlt | rfl | hgt
  · rw [compare_lt_iff_lt.mpr hlt]
    obtain ⟨N,rfl⟩ : ∃ N : ℕ, M = -N := ⟨M.natAbs,by omega⟩
    obtain ⟨k,rfl⟩ : ∃ k : ℕ, c = -k := by
      have : (c:ℚ) ≤ 0 := by
        rw [← hM]
        exact mul_nonpos_of_nonpos_of_nonneg (by exact_mod_cast hlt.le) hpos.le
      have : c ≤ 0 := by exact_mod_cast this
      exact ⟨c.natAbs,by omega⟩
    have hN : (N*2 ^ E:ℚ) = k := by
      push_cast at hM
      linarith
    simpa using hround .negative N k hN (by omega) (by omega)
  · exact ⟨0,.zero⟩
  · rw [compare_gt_iff_gt.mpr hgt]
    obtain ⟨N,rfl⟩ := Int.eq_ofNat_of_zero_le hgt.le
    obtain ⟨k,rfl⟩ : ∃ k : ℕ, c = k := by
      have : (0:ℚ) ≤ c := by
        rw [← hM]
        positivity
      have : 0 ≤ c := by exact_mod_cast this
      exact Int.eq_ofNat_of_zero_le this
    exact hround .positive N k (by exact_mod_cast hM) (by omega) (by omega)

/-- A mantissa shifted to a smaller exponent is the same number. -/
lemma apply_shiftLeft (s : Sign) {m n : ℕ} {e t : ℤ} (hn : (n:ℚ) = m*2 ^ e) (ht : t ≤ e) :
    ((s.apply ((m <<< (e-t).toNat:ℕ):ℤ):ℤ):ℚ)*2 ^ t = (s.apply n:ℤ) := by
  have hm : ((m <<< (e-t).toNat:ℕ):ℚ)*2 ^ t = n := by
    obtain ⟨k,hk⟩ := Int.eq_ofNat_of_zero_le (show 0 ≤ e-t by omega)
    have he : e = k+t := by omega
    rw [hn,hk,he,zpow_add₀ (by norm_num),zpow_natCast]
    simp only [Int.toNat_natCast,Nat.shiftLeft_eq]
    push_cast
    ring
  cases s
  · simp only [Sign.apply,Int.cast_neg,Int.cast_natCast]
    linarith
  · simpa only [Sign.apply,Int.cast_natCast] using hm

lemma add_eq (x y : Float) : x+y =
    .ofModel (.pack (UnpackedFloat.add .binary64 x.toModel.unpack y.toModel.unpack)) := rfl

/-- Adding a zero of either sign changes nothing. -/
lemma Denotes.add_zero (hx : Denotes x a) (s : Sign) :
    x+.ofModel (.pack (.zero s)) = x := by
  have hzero : (Float.Model.pack (.zero s)).unpack = .zero s := by cases s <;> rfl
  cases hx with
  | zero => cases s <;> rfl
  | finite s' h hm hn hb =>
    rw [add_eq,hzero,hm.unpack_pack hn hb]
    rfl

lemma Denotes.zero_add (hx : Denotes x a) : 0+x = x := by
  have hzero : (0:Float).toModel.unpack = .zero .positive := by rfl
  cases hx with
  | zero => rfl
  | finite s' h hm hn hb =>
    rw [add_eq,hzero,hm.unpack_pack hn hb]
    rfl

/-- Sums with a number of 64 bits stand for whole numbers again. -/
theorem Denotes.exists_add (hx : Denotes x a) (hy : Denotes y b) (hb : |b| ≤ 2 ^ 64) :
    ∃ c, Denotes (x+y) c := by
  cases hx with
  | zero =>
    have := hy.zero_add
    exact ⟨b,by rwa [show Float.ofModel (.pack (.zero .positive))+y = y from this]⟩
  | @finite s m n e h hm hn hbound =>
    cases hy with
    | zero =>
      have hd := Denotes.finite s h hm hn hbound
      exact ⟨_,by rwa [hd.add_zero .positive]⟩
    | @finite s' m' n' e' h' hm' hn' hbound' =>
      rw [add_eq,hm.unpack_pack hn hbound,hm'.unpack_pack hn' hbound']
      refine exists_denotes_normalize (c := s.apply n+s'.apply n') ?_ ?_ ?_
      · rw [Int.cast_add,Int.cast_add,add_mul,apply_shiftLeft s hn (min_le_left e e'),
          apply_shiftLeft s' hn' (min_le_right e e')]
      · have := hm.exponent_bounds hn hbound
        have := hm'.exponent_bounds hn' hbound'
        omega
      · have habs : |s.apply n| ≤ 2 ^ 120 := by
          cases s <;> simp only [Sign.apply,abs_neg,Nat.abs_cast] <;> exact_mod_cast hbound
        calc |s.apply n+s'.apply n'| ≤ |s.apply n|+|s'.apply n'| := abs_add_le _ _
          _ ≤ 2 ^ 120+2 ^ 64 := add_le_add habs hb
          _ < 2 ^ 120+2 ^ 67 := by norm_num

end Denotations

end LinProg.Double
