import LinProg.Proofs.Digits
import LinProg.Proofs.NearestMultiple

/-!
Numbers as a report prints them, over the rationals. What is printed is the one canonical numeral of
the multiple of a power of ten the number is rounded to: nothing is lost between the two, neither by
the fixed count of places nor by the zeros that are trimmed.
-/
namespace LinProg

namespace Decimal

/-- A numeral as it is written: a sign, the digits in front of the point, and those behind it. -/
@[ext]
structure Written where
  negative : Bool
  whole : List Char
  fraction : List Char
  deriving DecidableEq

namespace Written

/-- Without a fraction there is no point. -/
def tail (w : Written) : List Char := if w.fraction = [] then [] else '.'::w.fraction

def text (w : Written) : List Char := (if w.negative then ['-'] else []) ++ w.whole ++ w.tail

def units (w : Written) : ℕ := ofDigits (w.whole ++ w.fraction)

def value (w : Written) : ℚ :=
  (if w.negative then -1 else 1)*(w.units/10 ^ w.fraction.length)

def opposite (w : Written) : Written := {w with negative := !w.negative}

/-- The numerals that are printed with at most `places` digits behind the point. -/
structure Canonical (places : ℕ) (w : Written) : Prop where
  whole_isDigit : ∀ c ∈ w.whole, c.isDigit = true
  fraction_isDigit : ∀ c ∈ w.fraction, c.isDigit = true
  whole_ne_nil : w.whole ≠ []
  whole_of_zero : w.whole.head? = some '0' → w.whole = ['0']
  length_fraction_le : w.fraction.length ≤ places
  fraction_last : w.fraction.getLast? ≠ some '0'
  value_of_negative : w.negative = true → w.value ≠ 0

section Canonical
variable {places places' : ℕ} {w v : Written}

lemma drop_tail (w : Written) : w.tail.drop 1 = w.fraction := by
  unfold tail
  split
  case isTrue hnil => rw [hnil,List.drop_nil]
  case isFalse => rfl

/-- The digits in front of the point end where it stands. -/
lemma Canonical.takeWhile_isDigit (h : w.Canonical places) :
    (w.whole ++ w.tail).takeWhile Char.isDigit = w.whole := by
  rw [List.takeWhile_append_of_pos h.whole_isDigit,tail]
  split <;> simp [show ('.').isDigit = false from rfl]

lemma Canonical.head?_isDigit (h : w.Canonical places) :
    ∃ c rest, w.whole ++ w.tail = c::rest ∧ c ≠ '-' := by
  obtain ⟨c,rest,hwhole⟩ := List.exists_cons_of_ne_nil h.whole_ne_nil
  refine ⟨c,rest ++ w.tail,by rw [hwhole]; rfl,?_⟩
  rintro rfl
  have := h.whole_isDigit '-' (by rw [hwhole]; exact List.mem_cons_self ..)
  contradiction

/-- The text of a canonical numeral tells its parts. -/
theorem Canonical.eq_of_text_eq (hw : w.Canonical places) (hv : v.Canonical places')
    (h : w.text = v.text) : w = v := by
  obtain ⟨c,rest,hwhead,hc⟩ := hw.head?_isDigit
  obtain ⟨d,rest',hvhead,hd⟩ := hv.head?_isDigit
  have hsign : w.negative = v.negative ∧ w.whole ++ w.tail = v.whole ++ v.tail := by
    rw [text,text,List.append_assoc,List.append_assoc] at h
    cases hn : w.negative <;> cases hm : v.negative <;> rw [hn,hm] at h
    case false.false => exact ⟨rfl,h⟩
    case true.true => exact ⟨rfl,List.append_cancel_left h⟩
    case false.true =>
      rw [hwhead] at h
      exact absurd (List.cons.inj h).1 hc
    case true.false =>
      rw [hvhead] at h
      exact absurd (List.cons.inj h).1.symm hd
  obtain ⟨hsign,hbody⟩ := hsign
  have hwhole : w.whole = v.whole := by
    rw [← hw.takeWhile_isDigit,hbody,hv.takeWhile_isDigit]
  have hfraction : w.fraction = v.fraction := by
    rw [hwhole] at hbody
    have htail := List.append_cancel_left hbody
    rw [← w.drop_tail,htail,v.drop_tail]
  exact Written.ext hsign hwhole hfraction

lemma abs_value (w : Written) : |w.value| = w.units/10 ^ w.fraction.length := by
  have hnonneg : (0:ℚ) ≤ w.units/10 ^ w.fraction.length := by positivity
  unfold value
  split
  case isTrue => rw [neg_one_mul,abs_neg,abs_of_nonneg hnonneg]
  case isFalse => rw [one_mul,abs_of_nonneg hnonneg]

lemma Canonical.negative_iff (h : w.Canonical places) : w.negative = true ↔ w.value < 0 := by
  cases hn : w.negative with
  | true =>
    have hne := h.value_of_negative hn
    rw [value,hn,if_pos rfl,neg_one_mul] at hne ⊢
    simp only [true_iff]
    exact lt_of_le_of_ne (neg_nonpos.mpr (by positivity)) hne
  | false =>
    rw [value,hn,if_neg (by decide),one_mul]
    simp only [Bool.false_eq_true,false_iff,not_lt]
    positivity

/-- The last place is taken, so no fewer places will do. -/
lemma Canonical.units_mod_ten (h : w.Canonical places) (hne : w.fraction ≠ []) :
    w.units % 10 ≠ 0 := by
  obtain ⟨front,c,hfraction⟩ := List.eq_nil_or_concat w.fraction |>.resolve_left hne
  obtain ⟨d,hd,rfl⟩ := exists_digitChar (h.fraction_isDigit c (by rw [hfraction]; simp))
  have hlast := h.fraction_last
  rw [hfraction,List.concat_eq_append,List.getLast?_concat] at hlast
  rw [units,hfraction,List.concat_eq_append,← List.append_assoc,ofDigits_append,
    ofDigits_singleton hd,List.length_singleton,pow_one]
  intro hmod
  obtain rfl : d = 0 := by omega
  exact hlast rfl

lemma Canonical.length_le (hv : v.Canonical places) (h : |w.value| = |v.value|) :
    v.fraction.length ≤ w.fraction.length := by
  by_contra! hlt
  obtain ⟨n,hn⟩ := Nat.exists_eq_add_of_lt hlt
  have hmod := hv.units_mod_ten fun hnil => by simp [hnil] at hlt
  have hunits : (v.units:ℚ) = w.units*10 ^ (n+1) := by
    rw [abs_value,abs_value,hn,add_assoc,pow_add,div_eq_div_iff (by positivity) (by positivity),
      ← mul_assoc,mul_right_comm] at h
    exact (mul_right_cancel₀ (by positivity) h).symm
  have hunits : v.units = w.units*10 ^ (n+1) := by exact_mod_cast hunits
  rw [hunits,pow_succ,← mul_assoc] at hmod
  exact hmod (Nat.mul_mod_left ..)

/-- A number has only one canonical numeral. -/
theorem Canonical.eq_of_value_eq (hw : w.Canonical places) (hv : v.Canonical places')
    (h : w.value = v.value) : w = v := by
  have habs : |w.value| = |v.value| := congrArg _ h
  have hlength := le_antisymm (hw.length_le habs.symm) (hv.length_le habs)
  have hunits : w.units = v.units := by
    rw [abs_value,abs_value,hlength,div_left_inj' (by positivity)] at habs
    exact_mod_cast habs
  have hw' := ofDigits_lt hw.fraction_isDigit
  have hv' := ofDigits_lt hv.fraction_isDigit
  rw [units,units,ofDigits_append,ofDigits_append] at hunits
  rw [hlength] at hunits hw'
  have hpos : 0 < 10 ^ v.fraction.length := by positivity
  have hwhole := congrArg (· / 10 ^ v.fraction.length) hunits
  have hfraction := congrArg (· % 10 ^ v.fraction.length) hunits
  simp only [Nat.mul_add_div hpos,Nat.div_eq_of_lt hw',Nat.div_eq_of_lt hv',add_zero] at hwhole
  simp only [Nat.mul_add_mod,Nat.mod_eq_of_lt hw',Nat.mod_eq_of_lt hv'] at hfraction
  have hwhole : w.whole = v.whole := by
    rw [← toDigits_ofDigits hw.whole_ne_nil hw.whole_isDigit hw.whole_of_zero,hwhole,
      toDigits_ofDigits hv.whole_ne_nil hv.whole_isDigit hv.whole_of_zero]
  have hfraction : w.fraction = v.fraction :=
    eq_of_ofDigits_eq hw.fraction_isDigit hv.fraction_isDigit hlength hfraction
  have hsign : w.negative = v.negative := by
    rw [Bool.eq_iff_iff,hw.negative_iff,hv.negative_iff,h]
  exact Written.ext hsign hwhole hfraction

end Canonical

section Multiples
variable (places : ℕ) (k : ℤ)

def ofMultiple : Written where
  negative := decide (k < 0)
  whole := (Numeral.mk k.natAbs (-places)).wholeDigits
  fraction := trimEnd '0' (Numeral.mk k.natAbs (-places)).fractionDigits

lemma exists_fractionDigits : ∃ z, (Numeral.mk k.natAbs (-places)).fractionDigits =
    (ofMultiple places k).fraction ++ List.replicate z '0' ∧
      (ofMultiple places k).fraction.length+z = places := by
  obtain ⟨z,hz⟩ := exists_trimEnd '0' (Numeral.mk k.natAbs (-places)).fractionDigits
  refine ⟨z,hz,?_⟩
  have := congrArg List.length hz
  rw [length_fractionDigits,List.length_append,List.length_replicate] at this
  exact this.symm

lemma value_ofMultiple : (ofMultiple places k).value = k/10 ^ places := by
  obtain ⟨z,hz,hlength⟩ := exists_fractionDigits places k
  have hunits : ((ofMultiple places k).units:ℚ)*10 ^ z = |(k:ℚ)| := by
    have := ofDigits_wholeDigits_append k.natAbs places
    rw [hz,← List.append_assoc,ofDigits_append_zeros] at this
    have : (ofMultiple places k).units*10 ^ z = k.natAbs := this
    rw [← Int.cast_abs,Int.abs_eq_natAbs,Int.cast_natCast,← this]
    push_cast
    rfl
  have hsize : ((ofMultiple places k).units:ℚ)/10 ^ (ofMultiple places k).fraction.length =
      |(k:ℚ)|/10 ^ places := by
    have hplaces : (10:ℚ) ^ ((ofMultiple places k).fraction.length+z) = 10 ^ places := by
      rw [hlength]
    rw [← hplaces,pow_add,← hunits,mul_div_mul_right _ _ (by positivity)]
  have hsign : (ofMultiple places k).negative = decide (k < 0) := rfl
  rw [value,hsize,hsign]
  rcases lt_or_ge k 0 with hneg | hnonneg
  · rw [if_pos (decide_eq_true hneg),abs_of_neg (by exact_mod_cast hneg)]
    ring
  · rw [if_neg (by simpa using hnonneg),abs_of_nonneg (by exact_mod_cast hnonneg)]
    ring

/-- A zero keeps neither a sign nor a place. -/
theorem canonical_ofMultiple : (ofMultiple places k).Canonical places where
  whole_isDigit c := isDigit_of_mem_wholeDigits _ _
  fraction_isDigit c hc := by
    obtain ⟨z,hz,-⟩ := exists_fractionDigits places k
    exact isDigit_of_mem_fractionDigits k.natAbs places (hz ▸ List.mem_append_left _ hc)
  whole_ne_nil := wholeDigits_ne_nil _ _
  whole_of_zero := wholeDigits_of_head _ _
  length_fraction_le := by
    obtain ⟨z,-,hlength⟩ := exists_fractionDigits places k
    omega
  fraction_last := getLast?_trimEnd _ _
  value_of_negative h := by
    have hk : (k:ℚ) < 0 := by exact_mod_cast of_decide_eq_true h
    rw [value_ofMultiple]
    exact (div_neg_of_neg_of_pos hk (by positivity)).ne

lemma ofMultiple_neg {k : ℤ} (h : k ≠ 0) :
    ofMultiple places (-k) = (ofMultiple places k).opposite := by
  have hsign : decide (-k < 0) = !decide (k < 0) := by
    rw [← decide_not]
    exact decide_eq_decide.mpr (by omega)
  simp only [ofMultiple,opposite,Int.natAbs_neg,hsign]

lemma text_ofMultiple_zero : (ofMultiple places 0).text = ['0'] := by
  have hzero : (⟨false,['0'],[]⟩ : Written).Canonical 0 := {
    whole_isDigit c hc := by rw [List.mem_singleton.mp hc]; rfl
    fraction_isDigit c hc := absurd hc List.not_mem_nil
    whole_ne_nil := List.cons_ne_nil _ _
    whole_of_zero _ := rfl
    length_fraction_le := le_rfl
    fraction_last := nofun
    value_of_negative := nofun }
  refine congrArg text ((canonical_ofMultiple places 0).eq_of_value_eq hzero ?_)
  rw [value_ofMultiple]
  norm_num [value,units,ofDigits]

end Multiples

end Written

section Fixed
variable {places : ℕ} {k : ℤ}

/-- What comes out even is not rounded. -/
lemma nearest_mul (tie : Tie) (m : ℕ) {den : ℕ} (h : 0 < den) : nearest tie (m*den) den = m := by
  have hcompare : compare (2*(m*den % den)) den = .lt := by
    rw [Nat.mul_mod_left,Nat.mul_zero]
    exact compare_lt_iff_lt.mpr h
  unfold nearest
  dsimp only
  rw [hcompare,Nat.mul_div_cancel _ h]

/-- A multiple of `10 ^ -places` is printed exactly with that many places. -/
lemma fixed_multiple (q : ℚ) (h : q = k/10 ^ places) : fixed places (Scalar.exact q) =
    (if k < 0 then ['-'] else []) ++ (Numeral.mk k.natAbs (-places)).text := by
  have hnum : q.num*10 ^ places = k*q.den := by
    have hden : (q.den:ℚ) ≠ 0 := by exact_mod_cast q.den_nz
    have : (q.num:ℚ)*10 ^ places = k*q.den := by
      rw [← div_eq_div_iff hden (by positivity),Rat.num_div_den,h]
    exact_mod_cast this
  have habs : q.num.natAbs*10 ^ places = k.natAbs*q.den := by
    have := congrArg Int.natAbs hnum
    rwa [Int.natAbs_mul,Int.natAbs_mul,Int.natAbs_pow] at this
  have hsign : q.num < 0 ↔ k < 0 := by
    rw [Rat.num_neg,h,div_lt_iff₀ (by positivity),zero_mul,Int.cast_lt_zero]
  have hdigits : fixedDigits places q.num.natAbs q.den = (Numeral.mk k.natAbs (-places)).text := by
    rw [fixedDigits,Nat.pow_eq,habs,nearest_mul _ _ q.pos]
  change (if decide (q.num < 0) = true then '-'::fixedDigits places q.num.natAbs q.den
    else fixedDigits places q.num.natAbs q.den) = _
  rw [hdigits]
  by_cases hk : k < 0
  · rw [if_pos (decide_eq_true (hsign.mpr hk)),if_pos hk]
    rfl
  · rw [if_neg (by simpa [hsign] using hk),if_neg hk]
    rfl

lemma getLast?_ne_point {ds : List Char} (front : List Char) (hne : ds ≠ [])
    (h : ∀ c ∈ ds, c.isDigit = true) : (front ++ ds).getLast? ≠ some '.' := by
  rw [List.getLast?_append_of_ne_nil _ hne]
  intro hlast
  have := h '.' (List.mem_of_getLast? hlast)
  contradiction

/-- Zeros are trimmed up to the point, and then the point, but none of those in front of it. -/
lemma trimFraction_text (sign : List Char) (hsign : '.' ∉ sign) :
    trimFraction (sign ++ (Numeral.mk k.natAbs (-places)).text) =
      sign ++ (Written.ofMultiple places k).whole ++ (Written.ofMultiple places k).tail := by
  have hw := Written.canonical_ofMultiple places k
  obtain ⟨z,hfraction,hlength⟩ := Written.exists_fractionDigits places k
  set w := Written.ofMultiple places k
  have hwhole : (Numeral.mk k.natAbs (-places)).wholeDigits = w.whole := rfl
  unfold Numeral.text
  rw [hwhole,hfraction]
  split
  case isTrue hempty =>
    obtain ⟨hnil,-⟩ := List.append_eq_nil_iff.mp (List.isEmpty_iff.mp hempty)
    have hpoint : '.' ∉ sign ++ w.whole := fun hmem =>
      (List.mem_append.mp hmem).elim hsign fun hmem => by
        have := hw.whole_isDigit '.' hmem
        contradiction
    rw [trimFraction,if_neg (by simpa using hpoint),Written.tail,if_pos hnil,List.append_nil]
  case isFalse =>
    have hpoint : (sign ++ (w.whole ++ '.'::(w.fraction ++ List.replicate z '0'))).contains '.' =
        true := by simp
    have hzeros : sign ++ (w.whole ++ '.'::(w.fraction ++ List.replicate z '0')) =
        (sign ++ w.whole ++ '.'::w.fraction) ++ List.replicate z '0' := by simp
    have hlast : (sign ++ w.whole ++ '.'::w.fraction).getLast? ≠ some '0' := by
      rw [List.getLast?_append_of_ne_nil _ (by simp),List.getLast?_cons]
      intro h
      cases hl : w.fraction.getLast? with
      | none => simp [hl] at h
      | some c => exact hw.fraction_last (by rw [hl]; simpa [hl] using h)
    rw [trimFraction,if_pos hpoint,hzeros,trimEnd_append_run,trimEnd_eq_self hlast,Written.tail]
    by_cases hnil : w.fraction = []
    · have hrun : ['.'] = List.replicate 1 '.' := rfl
      rw [hnil,if_pos rfl,hrun,trimEnd_append_run,List.append_nil]
      exact trimEnd_eq_self (getLast?_ne_point sign hw.whole_ne_nil hw.whole_isDigit)
    · have hsplit : sign ++ w.whole ++ '.'::w.fraction =
          (sign ++ w.whole ++ ['.']) ++ w.fraction := by simp
      rw [if_neg hnil,hsplit]
      exact trimEnd_eq_self (getLast?_ne_point _ hnil hw.fraction_isDigit)

end Fixed

end Decimal

namespace Report
open Decimal
variable (r : Report)

/-- A report prints the numeral of the multiple it rounds to. -/
lemma number_eq {x : ℚ} {k : ℤ} (h : r.round x = k/10 ^ r.places) :
    r.number x = String.ofList (Written.ofMultiple r.places k).text := by
  have hsign : (if k < 0 then ['-'] else []) =
      if (Written.ofMultiple r.places k).negative then ['-'] else [] := by
    simp [Written.ofMultiple]
  rw [number,fixed_multiple _ h,trimFraction_text _ (by split <;> simp),Written.text,hsign]

lemma exists_numeral (x : ℚ) : ∃ k : ℤ, r.round x = k/10 ^ r.places ∧
    r.number x = String.ofList (Written.ofMultiple r.places k).text ∧
    (Written.ofMultiple r.places k).value = r.round x := by
  obtain ⟨k,hk⟩ := (r.nearestMultiple_round x).multiple
  exact ⟨k,hk,r.number_eq hk,by rw [Written.value_ofMultiple,hk]⟩

lemma number_eq_iff {x y : ℚ} : r.number x = r.number y ↔ r.round x = r.round y := by
  refine ⟨fun h => ?_,fun h => by rw [number,number,h]⟩
  obtain ⟨k,-,hx,hvalue⟩ := r.exists_numeral x
  obtain ⟨i,-,hy,hvalue'⟩ := r.exists_numeral y
  rw [hx,hy,String.ofList_inj] at h
  rw [← hvalue,← hvalue',(Written.canonical_ofMultiple _ k).eq_of_text_eq
    (Written.canonical_ofMultiple _ i) h]

lemma number_eq_zero_iff {x : ℚ} : r.number x = "0" ↔ r.round x = 0 := by
  have hround : r.round (0:ℚ) = 0 :=
    round_eq_of_nearest (.self_of_multiple ⟨0,by rw [Int.cast_zero,zero_div]⟩)
  have hzero : r.number (0:ℚ) = "0" := by
    rw [r.number_eq (k := 0) (by rw [hround,Int.cast_zero,zero_div]),Written.text_ofMultiple_zero]
  rw [← hzero,number_eq_iff,hround]

lemma number_neg {x : ℚ} {k : ℤ} (h : r.round x = k/10 ^ r.places) : r.number (-x) =
    if r.number x = "0" then "0"
    else String.ofList (Written.ofMultiple r.places k).opposite.text := by
  split
  case isTrue hzero =>
    rw [number_eq_zero_iff] at hzero ⊢
    rw [round_neg,hzero,neg_zero]
  case isFalse hne =>
    have hk : k ≠ 0 := by
      rintro rfl
      exact hne (r.number_eq_zero_iff.mpr (by rw [h,Int.cast_zero,zero_div]))
    rw [← Written.ofMultiple_neg _ hk]
    refine r.number_eq ?_
    rw [round_neg,h]
    push_cast
    ring

/-- Numbers are printed canonically, and rounded to the nearest multiple of the last place: the
numeral is the only canonical one of that multiple, and the text tells the multiple. -/
theorem number_canonical (x : ℚ) : ∃ w : Written,
    (r.number x = String.ofList w.text ∧ w.Canonical r.places ∧ w.value = r.round x ∧
      ∀ v : Written, v.Canonical r.places → v.value = r.round x → v = w) ∧
    (∀ y, NearestMultiple r.places x y ↔ y = r.round x) ∧
    (∀ y, r.number x = r.number y ↔ r.round x = r.round y) ∧
    (r.number (-x) = if r.number x = "0" then "0" else String.ofList w.opposite.text) ∧
    r.round (r.round x) = r.round x ∧ r.number (r.round x) = r.number x ∧
    Monotone (r.round : ℚ → ℚ) := by
  obtain ⟨k,hk,hprint,hvalue⟩ := r.exists_numeral x
  have hw := Written.canonical_ofMultiple r.places k
  refine ⟨_,⟨hprint,hw,hvalue,fun v hv h => hv.eq_of_value_eq hw (h.trans hvalue.symm)⟩,
    fun y => ⟨fun h => (round_eq_of_nearest h).symm,fun h => h ▸ r.nearestMultiple_round x⟩,
    fun y => r.number_eq_iff,r.number_neg hk,r.round_round x,
    r.number_eq_iff.mpr (r.round_round x),r.monotone_round⟩

/-- Halves go away from zero, and what comes to zero has no sign. -/
example : (Report.mk 2).number (-1/200 : ℚ) = "-0.01" ∧ (Report.mk 2).number (-1/201 : ℚ) = "0" ∧
    (Report.mk 0).number (5/2 : ℚ) = "3" ∧ (Report.mk 1).number (100 : ℚ) = "100" := by
  decide +kernel

end Report

end LinProg
