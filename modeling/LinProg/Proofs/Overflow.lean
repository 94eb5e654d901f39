import LinProg.Proofs.Digits
import LinProg.Proofs.Reading

/-!
Coefficients that 64 bits do not hold. The digits of a coefficient are taken up one after the other,
each with a product and a sum that have to fit. The numbers on the way never get smaller, so all of
them fit if the last one does, and a step that fails shows that the number of all the digits is too
large, whatever zeros stand in front.
-/
namespace LinProg

lemma wordLimit_eq : wordLimit = 2 ^ 64 := by norm_num [wordLimit]

namespace Decimal

/-- The value of a digit, its place among the ten of them. -/
def digitValue (c : Char) : ℕ := ['0','1','2','3','4','5','6','7','8','9'].idxOf c

def positional (ds : List Char) : ℕ := Nat.ofDigits 10 (ds.map digitValue).reverse

@[simp] lemma positional_nil : positional [] = 0 := rfl

lemma positional_concat (ds : List Char) (c : Char) :
    positional (ds ++ [c]) = positional ds*10+digitValue c := by
  unfold positional
  rw [List.map_append,List.reverse_append,List.map_singleton,List.reverse_singleton,
    List.singleton_append,Nat.ofDigits_cons]
  ring

/-- More digits do not make a number smaller. -/
lemma positional_le_append (ds ds' : List Char) : positional ds ≤ positional (ds ++ ds') := by
  induction ds' using List.reverseRecOn with
  | nil => rw [List.append_nil]
  | append_singleton ds' c ih =>
    rw [← List.append_assoc,positional_concat]
    omega

section Digits
variable {ds : List Char} {c : Char}

lemma digitValue_eq (h : c.isDigit = true) : digitValue c = c.toNat - '0'.toNat := by
  obtain ⟨d,hd,rfl⟩ := exists_digitChar h
  have : ∀ d < 10, digitValue (Nat.digitChar d) = (Nat.digitChar d).toNat - '0'.toNat := by decide
  exact this d hd

/-- Taking up digits from the left comes to the same as adding up their places. -/
lemma ofDigits_eq_positional (h : ∀ c ∈ ds, c.isDigit = true) : ofDigits ds = positional ds := by
  induction ds using List.reverseRecOn with
  | nil => rfl
  | append_singleton ds c ih =>
    have hc : ofDigits [c] = digitValue c := by
      rw [digitValue_eq (h c (by simp))]
      exact Nat.zero_add _
    rw [ofDigits_append,positional_concat,ih (List.forall_mem_append.mp h).1,hc,
      List.length_singleton,pow_one,Nat.mul_comm]

end Digits

end Decimal

namespace Formula
open Decimal

/-- The digits in front have been read as the number they denote, and 64 bits hold the product and
the sum that take up the next one. -/
structure TakesUp (front : List Char) (d : Char) : Prop where
  read : front.foldlM shiftIn 0 = some (positional front)
  product : Word.mul? (positional front) 10 = some (positional front*10)
  sum : Word.add? (positional front*10) (digitValue d) = some (positional (front ++ [d]))

def NeverOverflows (ds : List Char) : Prop :=
  ∀ front d back, ds = front ++ d::back → TakesUp front d

/-- The digits in front are read without overflow, and the next one is refused. It is the first with
which the number is too large. -/
structure StopsAt (front : List Char) (d : Char) : Prop where
  fits : NeverOverflows front
  read : front.foldlM shiftIn 0 = some (positional front)
  refused : shiftIn (positional front) d = none
  tooLarge : 2 ^ 64 ≤ positional (front ++ [d])

section Steps
variable {ds front back : List Char} {d : Char}

lemma foldlM_shiftIn_zero (h : ∀ c ∈ ds, c.isDigit = true) : ds.foldlM shiftIn 0 =
    if positional ds < 2 ^ 64 then some (positional ds) else none := by
  rw [← ofDigits_eq_positional h,← wordLimit_eq]
  exact foldlM_shiftIn (by decide) ds

lemma foldlM_shiftIn_of_lt (h : ∀ c ∈ ds, c.isDigit = true) (hlt : positional ds < 2 ^ 64) :
    ds.foldlM shiftIn 0 = some (positional ds) := by
  rw [foldlM_shiftIn_zero h,if_pos hlt]

/-- The step to a number that 64 bits hold overflows neither in its product nor in its sum. -/
lemma takesUp_of_lt (h : ∀ c ∈ front ++ [d], c.isDigit = true)
    (hlt : positional (front ++ [d]) < 2 ^ 64) : TakesUp front d := by
  have hsum := positional_concat front d
  have hproduct : positional front*10 < 2 ^ 64 := by omega
  refine ⟨foldlM_shiftIn_of_lt (List.forall_mem_append.mp h).1 (by omega),?_,?_⟩
  · exact Word.mul?_of_lt (wordLimit_eq ▸ hproduct)
  · rw [hsum] at hlt ⊢
    exact Word.add?_of_lt (wordLimit_eq ▸ hlt)

lemma neverOverflows_of_lt (h : ∀ c ∈ ds, c.isDigit = true) (hlt : positional ds < 2 ^ 64) :
    NeverOverflows ds := by
  intro front d back hds
  obtain rfl : ds = front ++ [d] ++ back := hds.trans (List.append_cons ..)
  exact takesUp_of_lt (List.forall_mem_append.mp h).1
    ((positional_le_append _ back).trans_lt hlt)

/-- Of the digits of a number that is too large, those up to some digit still fit. -/
lemma exists_stopsAt (h : ∀ c ∈ ds, c.isDigit = true) (hge : 2 ^ 64 ≤ positional ds) :
    ∃ front d back, ds = front ++ d::back ∧ StopsAt front d := by
  induction ds using List.reverseRecOn with
  | nil =>
    rw [positional_nil] at hge
    omega
  | append_singleton ds d ih =>
    have hds := (List.forall_mem_append.mp h).1
    rcases Nat.lt_or_ge (positional ds) (2 ^ 64) with hlt | hge'
    · refine ⟨ds,d,[],rfl,neverOverflows_of_lt hds hlt,foldlM_shiftIn_of_lt hds hlt,?_,hge⟩
      have hd := digitValue_eq (h d (by simp))
      rw [positional_concat,hd] at hge
      rw [shiftIn_eq,wordLimit_eq,if_neg (by omega)]
    · obtain ⟨front,e,back,rfl,hstop⟩ := ih hds hge'
      exact ⟨front,e,back ++ [d],by simp,hstop⟩

end Steps

/-- Digits of any length are taken up as the number that they denote in base ten if it is below
`2 ^ 64`, without an overflow on the way. Otherwise a first digit is refused, and the error of the
term has all the digits and their span. -/
theorem size_exact (t : Term) {c : Coefficient} (hc : t.coefficient? = some c)
    (hdigits : ∀ d ∈ c.digits.toList, d.isDigit = true) :
    (positional c.digits.toList < 2 ^ 64 →
      c.value? = some (positional c.digits.toList) ∧ t.size = .ok (positional c.digits.toList) ∧
        NeverOverflows c.digits.toList) ∧
    (2 ^ 64 ≤ positional c.digits.toList →
      c.value? = none ∧ t.size = .error (.coefficientOverflow c.digits c.span) ∧
        ∃ front d back, c.digits.toList = front ++ d::back ∧ StopsAt front d) := by
  have hvalue : c.value? = _ := foldlM_shiftIn_zero hdigits
  constructor
  · intro hlt
    rw [if_pos hlt] at hvalue
    exact ⟨hvalue,by simp [Term.size,hc,hvalue],neverOverflows_of_lt hdigits hlt⟩
  · intro hge
    rw [if_neg hge.not_gt] at hvalue
    exact ⟨hvalue,by simp [Term.size,hc,hvalue],exists_stopsAt hdigits hge⟩

def countedTerm (digits : String) : Term where
  span := ⟨0,digits.length+2⟩
  sign := .plus
  coefficient? := some ⟨⟨0,digits.length⟩,digits⟩
  name := "X1"
  nameSpan := ⟨digits.length,digits.length+2⟩

/-- The greatest number that fits and the least that does not differ in their last digit; zeros in
front do not matter. -/
theorem size_exact_limit :
    (positional "00018446744073709551615".toList < 2 ^ 64 ∧
      (countedTerm "00018446744073709551615").size = .ok (2 ^ 64-1) ∧
      NeverOverflows "00018446744073709551615".toList) ∧
    (2 ^ 64 ≤ positional "18446744073709551616".toList ∧
      (countedTerm "18446744073709551616").size =
        .error (.coefficientOverflow "18446744073709551616" ⟨0,20⟩) ∧
      ∃ front d back, "18446744073709551616".toList = front ++ d::back ∧ StopsAt front d) := by
  have hfits := size_exact (countedTerm "00018446744073709551615") rfl (by simp)
  have hlarge := size_exact (countedTerm "18446744073709551616") rfl (by simp)
  have hlast : positional "00018446744073709551615".toList = 2 ^ 64-1 := rfl
  have hlimit : positional "18446744073709551616".toList = 2 ^ 64 := rfl
  obtain ⟨-,hsize,hnever⟩ := hfits.1 (hlast.trans_lt (by decide))
  obtain ⟨-,herror,hstop⟩ := hlarge.2 hlimit.ge
  exact ⟨⟨hlast.trans_lt (by decide),hsize.trans (congrArg _ hlast),hnever⟩,
    hlimit.ge,herror,hstop⟩

end Formula

end LinProg
