import LinProg.Decimal.Fixed
import LinProg.Decimal.Literal
import Mathlib.Data.List.DropRight
import Mathlib.Data.Nat.Digits.Defs
import Mathlib.Tactic

/-!
Runs of decimal digits and the whole numbers they denote: what zeros at either end do to a run, and
how the digits of a number are set apart on both sides of a point.
-/
namespace LinProg.Decimal

section Runs
variable {ds : List Char} {c : Char}

lemma ofDigits_eq (ds : List Char) : ofDigits ds = Nat.ofDigitChars 10 ds 0 := rfl

@[simp] lemma ofDigits_toDigits (n : ℕ) : ofDigits (Nat.toDigits 10 n) = n :=
  Nat.ofDigitChars_ten_toDigits

lemma ofDigits_append_zeros (ds : List Char) (z : ℕ) :
    ofDigits (ds ++ List.replicate z '0') = ofDigits ds*10 ^ z := by
  rw [ofDigits_eq,ofDigits_eq,Nat.ofDigitChars_append]
  induction z with
  | zero => simp
  | succ z ih =>
    rw [List.replicate_succ',Nat.ofDigitChars_append,ih,Nat.ofDigitChars_cons]
    simp [pow_succ]
    ring

@[simp] lemma ofDigits_zeros_append (z : ℕ) (ds : List Char) :
    ofDigits (List.replicate z '0' ++ ds) = ofDigits ds := by
  induction z with
  | zero => rfl
  | succ z ih => exact ih

lemma isDigit_of_mem_toDigits {n : ℕ} (h : c ∈ Nat.toDigits 10 n) : c.isDigit = true :=
  Nat.isDigit_of_mem_toDigits (by decide) (by decide) h

lemma isDigit_of_mem_zeros {z : ℕ} (h : c ∈ List.replicate z '0') : c.isDigit = true := by
  rw [List.eq_of_mem_replicate h]
  rfl

/-- Only zero is written with a zero in front. -/
lemma head?_toDigits {n : ℕ} (h : 0 < n) : (Nat.toDigits 10 n).head? ≠ some '0' := by
  induction n using Nat.strong_induction_on with
  | h n ih =>
    rcases lt_or_ge n 10 with hlt | hge
    · have : ∀ d < 10, 0 < d → some (Nat.digitChar d) ≠ some '0' := by decide
      rw [Nat.toDigits_of_lt_base hlt]
      exact this n hlt h
    · rw [Nat.toDigits_of_base_le (by decide) hge,List.head?_append_of_ne_nil _ Nat.toDigits_ne_nil]
      exact ih (n/10) (by omega) (by omega)

lemma exists_digitChar (h : c.isDigit = true) : ∃ d < 10, c = Nat.digitChar d := by
  have hbounds : 48 ≤ c.toNat ∧ c.toNat ≤ 57 := by
    simpa [Char.isDigit,UInt32.le_iff_toNat_le] using h
  have hchar : ∀ n < 58, 48 ≤ n → Char.ofNat n = Nat.digitChar (n-48) := by decide
  refine ⟨c.toNat-48,by omega,?_⟩
  rw [← hchar c.toNat (by omega) hbounds.1,Char.ofNat_toNat]

lemma ofDigits_append (ds ds' : List Char) :
    ofDigits (ds ++ ds') = 10 ^ ds'.length*ofDigits ds+ofDigits ds' := by
  rw [ofDigits_eq,Nat.ofDigitChars_append,Nat.ofDigitChars_eq_ofDigitChars_zero]
  rfl

lemma ofDigits_singleton {d : ℕ} (h : d < 10) : ofDigits [Nat.digitChar d] = d := by
  rw [← Nat.toDigits_of_lt_base h,ofDigits_toDigits]

lemma ofDigits_lt (h : ∀ c ∈ ds, c.isDigit = true) : ofDigits ds < 10 ^ ds.length := by
  induction ds using List.reverseRecOn with
  | nil => decide
  | append_singleton ds c ih =>
    obtain ⟨d,hd,rfl⟩ := exists_digitChar (h c (by simp))
    have hlt := ih fun c hc => h c (List.mem_append_left _ hc)
    rw [ofDigits_append,ofDigits_singleton hd,List.length_append,pow_add]
    simp only [List.length_singleton,pow_one]
    omega

/-- A run without a superfluous zero in front is the digits of its number. -/
lemma toDigits_ofDigits (hne : ds ≠ []) (h : ∀ c ∈ ds, c.isDigit = true)
    (hzero : ds.head? = some '0' → ds = ['0']) : Nat.toDigits 10 (ofDigits ds) = ds := by
  induction ds using List.reverseRecOn with
  | nil => contradiction
  | append_singleton ds c ih =>
    obtain ⟨d,hd,rfl⟩ := exists_digitChar (h c (by simp))
    rw [ofDigits_append,ofDigits_singleton hd,List.length_singleton,pow_one]
    by_cases hnil : ds = []
    · subst hnil
      rw [List.nil_append,← Nat.toDigits_of_lt_base hd]
      exact congrArg _ (by rw [show ofDigits [] = 0 from rfl]; omega)
    · have hhead : ds.head? ≠ some '0' := fun hhead => by
        have hlength := congrArg List.length (hzero (by rwa [List.head?_append_of_ne_nil _ hnil]))
        rw [List.length_append] at hlength
        exact hnil (List.eq_nil_of_length_eq_zero (Nat.succ.inj hlength))
      have hds := ih hnil (fun c hc => h c (List.mem_append_left _ hc)) fun hz => absurd hz hhead
      have hpos : 0 < ofDigits ds := by
        refine Nat.pos_of_ne_zero fun hz => hhead ?_
        rw [← hds,hz]
        rfl
      rw [← Nat.toDigits_append_toDigits (by decide) hpos hd,hds,Nat.toDigits_of_lt_base hd]

/-- With a digit put in front, runs of one length are told apart by their numbers. -/
lemma eq_of_ofDigits_eq {ds' : List Char} (h : ∀ c ∈ ds, c.isDigit = true)
    (h' : ∀ c ∈ ds', c.isDigit = true) (hlength : ds.length = ds'.length)
    (heq : ofDigits ds = ofDigits ds') : ds = ds' := by
  have hfront : ∀ es : List Char, (∀ c ∈ es, c.isDigit = true) →
      Nat.toDigits 10 (ofDigits (['1'] ++ es)) = ['1'] ++ es := fun es hes =>
    toDigits_ofDigits (by simp) (by simpa using hes) (by simp)
  have := hfront ds h
  rw [ofDigits_append,hlength,heq,← ofDigits_append,hfront ds' h'] at this
  exact (List.append_cancel_left this).symm

lemma trimEnd_append_run (c : Char) (cs : List Char) (z : ℕ) :
    trimEnd c (cs ++ List.replicate z c) = trimEnd c cs := by
  rw [trimEnd,List.reverse_append,List.reverse_replicate,
    List.dropWhile_append_of_pos fun d hd => by simp [List.eq_of_mem_replicate hd]]
  rfl

lemma trimEnd_eq_self (h : ds.getLast? ≠ some c) : trimEnd c ds = ds := by
  refine List.rdropWhile_eq_self_iff.mpr fun hne hlast => h ?_
  rw [List.getLast?_eq_some_getLast hne,beq_iff_eq.mp hlast]

lemma getLast?_trimEnd (c : Char) (cs : List Char) : (trimEnd c cs).getLast? ≠ some c := by
  intro h
  have hne : trimEnd c cs ≠ [] := by
    intro hnil
    rw [hnil] at h
    contradiction
  rw [List.getLast?_eq_some_getLast hne,Option.some_inj] at h
  exact List.rdropWhile_last_not (· == c) cs hne (beq_iff_eq.mpr h)

/-- What is trimmed off the end of a list is a run of the character. -/
lemma exists_trimEnd (c : Char) (cs : List Char) :
    ∃ z, cs = trimEnd c cs ++ List.replicate z c := by
  have hrun : ∀ d ∈ cs.rtakeWhile (· == c), d = c := fun d hd => by
    simpa using List.mem_rtakeWhile_imp hd
  refine ⟨(cs.rtakeWhile (· == c)).length,?_⟩
  rw [← List.eq_replicate_iff.mpr ⟨rfl,hrun⟩]
  exact List.rdropWhile_append_rtakeWhile.symm

end Runs

section Places
variable (m places : ℕ)

/-- The digits in front of a point that is `places` digits from the end. -/
lemma wholeDigits_neg : (Numeral.mk m (-places)).wholeDigits =
    if (Nat.toDigits 10 m).length ≤ places then ['0']
    else (Nat.toDigits 10 m).take ((Nat.toDigits 10 m).length-places) := by
  have hpos : 0 < (Nat.toDigits 10 m).length := Nat.length_toDigits_pos
  unfold Numeral.wholeDigits Numeral.digits
  by_cases hzero : places = 0
  · subst hzero
    simp [hpos.ne']
  · rw [if_neg (by dsimp only; omega)]
    simp

lemma fractionDigits_neg : (Numeral.mk m (-places)).fractionDigits =
    List.replicate (places-(Nat.toDigits 10 m).length) '0' ++
      (Nat.toDigits 10 m).drop ((Nat.toDigits 10 m).length-places) := by
  unfold Numeral.fractionDigits Numeral.digits
  by_cases hzero : places = 0
  · subst hzero
    simp
  · rw [if_neg (by dsimp only; omega)]
    simp

lemma length_fractionDigits : (Numeral.mk m (-places)).fractionDigits.length = places := by
  rw [fractionDigits_neg,List.length_append,List.length_replicate,List.length_drop]
  omega

/-- Both sides of the point together are the digits of the significand. -/
lemma ofDigits_wholeDigits_append : ofDigits ((Numeral.mk m (-places)).wholeDigits ++
    (Numeral.mk m (-places)).fractionDigits) = m := by
  rw [wholeDigits_neg,fractionDigits_neg]
  split
  case isTrue hle =>
    rw [Nat.sub_eq_zero_of_le hle,List.drop_zero,← List.append_assoc]
    exact (ofDigits_zeros_append (places-(Nat.toDigits 10 m).length+1) _).trans
      (ofDigits_toDigits m)
  case isFalse hgt =>
    rw [Nat.sub_eq_zero_of_le (le_of_not_ge hgt),List.replicate_zero,List.nil_append,
      List.take_append_drop,ofDigits_toDigits]

lemma isDigit_of_mem_fractionDigits {c : Char}
    (h : c ∈ (Numeral.mk m (-places)).fractionDigits) : c.isDigit = true := by
  rw [fractionDigits_neg] at h
  rcases List.mem_append.mp h with h | h
  · exact isDigit_of_mem_zeros h
  · exact isDigit_of_mem_toDigits (List.mem_of_mem_drop h)

lemma isDigit_of_mem_wholeDigits {c : Char}
    (h : c ∈ (Numeral.mk m (-places)).wholeDigits) : c.isDigit = true := by
  rw [wholeDigits_neg] at h
  split at h
  case isTrue => exact isDigit_of_mem_zeros (z := 1) h
  case isFalse => exact isDigit_of_mem_toDigits (List.mem_of_mem_take h)

lemma wholeDigits_ne_nil : (Numeral.mk m (-places)).wholeDigits ≠ [] := by
  rw [wholeDigits_neg]
  split
  case isTrue => decide
  case isFalse hgt =>
    rw [ne_eq,List.take_eq_nil_iff]
    simp only [Nat.toDigits_ne_nil,or_false]
    omega

/-- A zero in front of the point stands there alone. -/
lemma wholeDigits_of_head (h : (Numeral.mk m (-places)).wholeDigits.head? = some '0') :
    (Numeral.mk m (-places)).wholeDigits = ['0'] := by
  rw [wholeDigits_neg] at h ⊢
  split at h
  case isTrue hle => rw [if_pos hle]
  case isFalse hgt =>
    rw [if_neg hgt]
    rw [List.head?_take,if_neg (by omega)] at h
    obtain rfl : m = 0 := Nat.eq_zero_of_not_pos fun hpos => head?_toDigits hpos h
    rw [Nat.toDigits_zero] at hgt ⊢
    obtain rfl : places = 0 := by simpa using hgt
    rfl

end Places

end LinProg.Decimal
