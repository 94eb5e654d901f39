import LinProg.Equation.Text
import LinProg.Proofs.Grammar
import LinProg.Proofs.Reading
import LinProg.Proofs.ShortestWhole

/-!
The coefficients of an expression that was read from a text. They stand for whole numbers, since
terms add whole numbers of 64 bits; the digits that one of them is written with are read back as
that coefficient if 64 bits hold it, and as an error otherwise.
-/
namespace LinProg

namespace Double
variable {x : Float} {a : ℤ}

lemma denotes_one : Denotes (Scalar.ofNat 1) 1 := by
  have hone : Float.ofNat 1 =
      .ofModel (.pack (.finite .positive (2 ^ 52) (-52) (by norm_num))) := by rfl
  have := Denotes.finite (n := 1) (e := -52) .positive (by norm_num)
    (⟨by norm_num,by norm_num⟩ : Normal (2 ^ 52)) (by norm_num) (by norm_num)
  rwa [← hone] at this

lemma denotes_wordLimit : Denotes (Scalar.ofNat wordLimit) wordLimit := by
  have hlimit : Float.ofNat wordLimit =
      .ofModel (.pack (.finite .positive (2 ^ 52) 12 (by norm_num))) := by rfl
  have := Denotes.finite (n := wordLimit) (e := 12) .positive (by norm_num)
    (⟨by norm_num,by norm_num⟩ : Normal (2 ^ 52)) (by norm_num [wordLimit])
    (by norm_num [wordLimit])
  rwa [← hlimit] at this

lemma Denotes.lt_zero_iff (hx : Denotes x a) : x < 0 ↔ a < 0 := hx.lt_iff denotes_zero

lemma Denotes.beq_zero_iff (hx : Denotes x a) : (x == 0) = true ↔ a = 0 := hx.beq_iff denotes_zero

lemma Denotes.magnitude (hx : Denotes x a) : Denotes (Scalar.magnitude x) |a| := by
  unfold Scalar.magnitude
  split
  case isTrue h =>
    have hneg := hx.lt_zero_iff.mp h
    rw [abs_of_neg hneg]
    exact hx.neg hneg.ne
  case isFalse h =>
    have hpos := not_lt.mp (mt hx.lt_zero_iff.mpr h)
    rwa [abs_of_nonneg hpos]

/-- A number of 64 bits, with a sign, can be added. -/
lemma Denotes.exists_add_term (hx : Denotes x a) {n : ℕ} (hn : n < wordLimit) (s : Formula.Sign) :
    ∃ b, Denotes (x+s.apply (Scalar.ofNat n)) b := by
  rcases Nat.eq_zero_or_pos n with rfl | hpos
  · have hzero : ∃ s', s.apply (Scalar.ofNat 0 : Float) = .ofModel (.pack (.zero s')) := by
      cases s with
      | plus => exact ⟨.positive,rfl⟩
      | minus => exact ⟨.negative,rfl⟩
    obtain ⟨s',hs⟩ := hzero
    exact ⟨a,by rwa [hs,hx.add_zero]⟩
  · obtain ⟨k,hround,hk⟩ := exists_denotes_ofNat hpos hn
    have hle : (k:ℤ) ≤ 2 ^ 64 := by exact_mod_cast hround.le_wordLimit hn
    cases s with
    | plus => exact hx.exists_add hk (by rwa [Nat.abs_cast])
    | minus =>
      have hk0 : (k:ℤ) ≠ 0 := by exact_mod_cast hround.pos.2.ne'
      exact hx.exists_add (hk.neg hk0) (by rwa [abs_neg,Nat.abs_cast])

end Double

namespace Equation
open Double

/-- The expression mentions the variables of a registry and no others, and its coefficients stand
for whole numbers. -/
structure Whole (e : Equation Float) (r : Registry) : Prop where
  mentions : ∀ i, e.contains i = true ↔ ∃ v ∈ r.members, v.index = i
  denotes : ∀ i c, e.get? i = some c → ∃ a, Denotes c a

section Whole
variable {e : Equation Float} {r : Registry} {i : ℕ} {c : Float} {v : Variable}

lemma Whole.exists_index (h : e.Whole r) (hget : e.get? i = some c) :
    ∃ v ∈ r.members, v.index = i := by
  rw [← h.mentions,contains,hget]
  rfl

lemma Whole.exists_get? (h : e.Whole r) (hv : v ∈ r.members) : ∃ c, e.get? v.index = some c :=
  Option.isSome_iff_exists.mp ((h.mentions v.index).mpr ⟨v,hv,rfl⟩)

/-- A coefficient that is zero is the plain zero. -/
lemma Whole.eq_zero (h : e.Whole r) (hget : e.get? i = some c) (hc : (c == 0) = true) :
    c = 0 := by
  obtain ⟨a,ha⟩ := h.denotes i c hget
  obtain rfl := ha.beq_zero_iff.mp hc
  exact ha.unique denotes_zero

end Whole

end Equation

namespace Formula
open Double

lemma exists_denotes_of_read {source : String} {r : Registry} {e : Equation Float}
    (h : read source r = .ok e) {i : ℕ} {c : Float} (hc : e.get? i = some c) :
    ∃ a, Denotes c a := by
  obtain ⟨terms,-,h⟩ := Except.bind_eq_ok.mp h
  revert i c
  refine meaning_induction (P := fun e : Equation Float => ∀ {i c}, e.get? i = some c →
    ∃ a, Denotes c a) ?_ ?_ h
  · intro i c hc
    rw [Equation.get?_zeros] at hc
    split_ifs at hc
    obtain rfl := Option.some.inj hc
    exact ⟨0,denotes_zero⟩
  · intro e he v hv s n hn i c hc
    rw [Equation.get?_add] at hc
    split_ifs at hc with hi
    · obtain rfl := Option.some.inj hc
      have hold : ∃ a, Denotes ((e.get? v.index).getD 0) a := by
        cases hget : e.get? v.index with
        | none => exact ⟨0,denotes_zero⟩
        | some old => exact he hget
      obtain ⟨a,ha⟩ := hold
      exact ha.exists_add_term hn s
    · exact he hc

/-- Reading gives whole coefficients for the variables of the registry. -/
theorem whole_of_read {source : String} {r : Registry} {e : Equation Float}
    (h : read source r = .ok e) : e.Whole r :=
  ⟨contains_read h,fun _ _ => exists_denotes_of_read h⟩

section Bodies
variable {b : Body} {sign? : Option (Sign × ℕ)} {offset : ℕ}

lemma Body.size_term_of_nil (h : b.digits = []) : (b.term sign? offset).size = .ok 1 := by
  simp [Term.size,Body.term,h]

lemma Body.size_term_of_lt (h : b.digits ≠ []) (hlt : Decimal.ofDigits b.digits < wordLimit) :
    (b.term sign? offset).size = .ok (Decimal.ofDigits b.digits) := by
  simp [Term.size,Body.term,h,Coefficient.value?_eq,hlt]

lemma Body.exists_size_term_of_ge (h : b.digits ≠ [])
    (hge : ¬ Decimal.ofDigits b.digits < wordLimit) :
    ∃ digits span, (b.term sign? offset).size = .error (.coefficientOverflow digits span) := by
  simp [Term.size,Body.term,h,Coefficient.value?_eq,hge]

end Bodies

/-- A term reads back as a coefficient of a name, or as an error if 64 bits are too few for it. -/
structure Term.Renders (t : Term) (name : String) (c : Float) : Prop where
  name : t.name = name
  size : Scalar.magnitude c < Scalar.ofNat wordLimit →
    ∃ n, t.size = .ok n ∧ t.sign.apply (Scalar.ofNat n) = c
  overflow : ¬ Scalar.magnitude c < Scalar.ofNat wordLimit →
    ∃ digits span, t.size = .error (.coefficientOverflow digits span)

def signOf (c : Float) : Sign := if c < 0 then .minus else .plus

section Rendering
variable {c : Float} {a : ℤ}

lemma apply_magnitude (hc : Denotes c a) (ha : a ≠ 0) :
    (signOf c).apply (Scalar.magnitude c) = c := by
  unfold signOf Scalar.magnitude
  split
  case isTrue h =>
    have hneg := hc.neg ha
    have hback := hneg.neg (neg_ne_zero.mpr ha)
    rw [neg_neg] at hback
    exact hback.unique hc
  case isFalse => rfl

/-- The digits of a coefficient in front of a name give a term that renders it. -/
theorem exists_body (hc : Denotes c a) (ha : a ≠ 0) (word : Body) : ∃ b : Body,
    b.name = word.name ∧ String.ofList b.digits =
      (if Scalar.magnitude c == 1 then "" else Decimal.plain (Scalar.magnitude c)) ∧
    ∀ sign? offset, ((sign? : Option (Sign × ℕ)).map Prod.fst).getD .plus = signOf c →
      (b.term sign? offset).Renders (String.ofList word.name) c := by
  obtain ⟨n,hn⟩ := Int.eq_ofNat_of_zero_le (abs_nonneg a)
  have hpos : 0 < n := by
    have := abs_pos.mpr ha
    omega
  have hsize := hc.magnitude
  rw [hn] at hsize
  have hlimit : Scalar.magnitude c < Scalar.ofNat wordLimit ↔ n < wordLimit :=
    (hsize.lt_iff denotes_wordLimit).trans Nat.cast_lt
  by_cases hone : (Scalar.magnitude c == 1) = true
  · have hn1 : (n:ℤ) = 1 := (hsize.beq_iff denotes_one).mp hone
    rw [hn1] at hsize
    refine ⟨{ word with digits := [], digits_isDigit := by simp },rfl,by rw [if_pos hone],?_⟩
    intro sign? offset hsign
    refine ⟨rfl,fun _ => ⟨1,Body.size_term_of_nil rfl,?_⟩,fun hge => ?_⟩
    · rw [denotes_one.unique hsize]
      exact (congrArg (Sign.apply · (Scalar.magnitude c)) hsign).trans (apply_magnitude hc ha)
    · rw [hlimit,wordLimit] at hge
      omega
  · obtain ⟨ds,hplain,hne,hdigit,hround,hiff⟩ := Decimal.exists_plain hsize hpos
    refine ⟨{ word with digits := ds, digits_isDigit := hdigit },rfl,
      by rw [if_neg hone]; exact hplain.symm,?_⟩
    intro sign? offset hsign
    refine ⟨rfl,fun hlt => ?_,fun hge => ?_⟩
    · rw [hlimit,← hiff] at hlt
      refine ⟨_,Body.size_term_of_lt hne hlt,?_⟩
      have hds : 0 < Decimal.ofDigits ds := by exact_mod_cast hround.pos.1
      obtain ⟨k,hround',hk⟩ := exists_denotes_ofNat hds hlt
      obtain rfl : k = n := by exact_mod_cast hround'.unique hround
      have hread : Float.ofNat (Decimal.ofDigits ds) = Scalar.magnitude c := hk.unique hsize
      change Sign.apply _ (Float.ofNat (Decimal.ofDigits ds)) = c
      rw [hread]
      exact (congrArg (Sign.apply · (Scalar.magnitude c)) hsign).trans (apply_magnitude hc ha)
    · rw [hlimit,← hiff] at hge
      exact Body.exists_size_term_of_ge hne hge

lemma magnitude_zero_lt : Scalar.magnitude (0 : Float) < Scalar.ofNat wordLimit :=
  (denotes_zero.magnitude.lt_iff denotes_wordLimit).mpr (by decide)

/-- A zero in front of a name. -/
lemma exists_zero_body (word : Body) : ∃ b : Body, b.name = word.name ∧ b.digits = ['0'] ∧
    ∀ offset, (b.term none offset).Renders (String.ofList word.name) 0 := by
  refine ⟨{ word with digits := ['0'], digits_isDigit := by simp },rfl,rfl,fun offset => ?_⟩
  have hlt : Decimal.ofDigits ['0'] < wordLimit := by decide
  exact ⟨rfl,fun _ => ⟨_,Body.size_term_of_lt (by simp) hlt,rfl⟩,absurd magnitude_zero_lt⟩

end Rendering

end Formula

end LinProg
