import LinProg.Decimal.Literal
import LinProg.Formula.Meaning
import LinProg.Proofs.RegistryOrder

/-!
The meaning of the terms of an expression. Digits denote their number as long as 64 bits hold it,
and what holds of the zeros that reading starts from, and goes on to hold when a term is added, holds
of what is read; so a read expression mentions the variables of its registry and nothing else.
-/
namespace LinProg

namespace Equation
variable {K : Type}

/-- An index has one entry at most, and it is the one that is found. -/
lemma entryAt?_eq_some {es : List (ℕ × K)} (h : es.Pairwise fun a b => a.1 < b.1) {i : ℕ} {c : K} :
    entryAt? i es = some c ↔ (i,c) ∈ es := by
  induction es with
  | nil => simp [entryAt?]
  | cons e es ih =>
    obtain ⟨he,hes⟩ := List.pairwise_cons.mp h
    rw [entryAt?,List.mem_cons]
    by_cases hi : e.1 = i
    · have hnot : (i,c) ∉ es := fun hmem => (he _ hmem).ne hi
      rw [if_pos hi,or_iff_left hnot,Option.some_inj,Prod.ext_iff]
      exact ⟨fun hc => ⟨hi.symm,hc.symm⟩,fun hc => hc.2.symm⟩
    · have hnot : (i,c) ≠ e := fun heq => hi (congrArg Prod.fst heq).symm
      rw [if_neg hi,ih hes,or_iff_right hnot]

lemma ext_get? {e e' : Equation K} (h : ∀ i, e.get? i = e'.get? i) : e = e' := by
  obtain ⟨es,hes⟩ := e
  obtain ⟨ds,hds⟩ := e'
  have hirrefl : Std.Irrefl fun a b : ℕ × K => a.1 < b.1 := ⟨fun a => lt_irrefl a.1⟩
  have hantisymm : Std.Antisymm fun a b : ℕ × K => a.1 < b.1 :=
    ⟨fun a b hab hba => absurd hab hba.not_gt⟩
  obtain rfl : es = ds := hes.eq_of_mem_iff hds fun ⟨i,c⟩ => by
    rw [← entryAt?_eq_some hes,← entryAt?_eq_some hds]
    exact iff_of_eq (congrArg (· = some c) (h i))
  rfl

variable [Scalar K]

lemma get?_zeros (r : Registry) (i : ℕ) : (zeros r : Equation K).get? i =
    if ∃ v ∈ r.members, v.index = i then some 0 else none := by
  rw [zeros]
  induction r.members with
  | nil => simp [ofList]
  | cons v vs ih =>
    rw [List.map_cons,get?_ofList_cons]
    by_cases hi : i = v.index
    · subst hi
      rw [if_pos rfl,if_pos ⟨v,by simp,rfl⟩,ih]
      split <;> rfl
    · rw [if_neg hi,ih]
      simp [Ne.symm hi]

lemma contains_zeros (r : Registry) (i : ℕ) :
    (zeros r : Equation K).contains i = true ↔ ∃ v ∈ r.members, v.index = i := by
  rw [contains,get?_zeros]
  split <;> simp_all

lemma contains_add (e : Equation K) (index : ℕ) (c : K) (i : ℕ) :
    (e.add index c).contains i = true ↔ i = index ∨ e.contains i = true := by
  rw [contains,get?_add]
  split <;> simp_all [contains]

end Equation

namespace Formula
variable {K : Type} [Scalar K] {r : Registry} {e : Equation K}

lemma le_ofDigitChars (ds : List Char) (n : ℕ) : n ≤ Nat.ofDigitChars 10 ds n := by
  induction ds generalizing n with
  | nil => exact le_rfl
  | cons d ds ih =>
    rw [Nat.ofDigitChars_cons]
    exact le_trans (by omega) (ih _)

/-- A digit is taken up if 64 bits hold what it makes; the product on the way is not larger. -/
lemma shiftIn_eq (n : ℕ) (d : Char) : shiftIn n d =
    if 10*n+(d.toNat - '0'.toNat) < wordLimit then some (10*n+(d.toNat - '0'.toNat)) else none := by
  unfold shiftIn
  by_cases hproduct : n*10 < wordLimit
  · rw [Word.mul?_of_lt hproduct,Nat.mul_comm]
    rfl
  · rw [Word.mul?_of_not_lt hproduct,if_neg (by omega)]
    rfl

lemma foldlM_shiftIn {n : ℕ} (hn : n < wordLimit) (ds : List Char) :
    ds.foldlM shiftIn n =
      if Nat.ofDigitChars 10 ds n < wordLimit then some (Nat.ofDigitChars 10 ds n) else none := by
  induction ds generalizing n with
  | nil => exact (if_pos hn).symm
  | cons d ds ih =>
    rw [List.foldlM_cons,Nat.ofDigitChars_cons,shiftIn_eq]
    by_cases hnext : 10*n+(d.toNat - '0'.toNat) < wordLimit
    · rw [if_pos hnext]
      exact ih hnext
    · have := le_ofDigitChars ds (10*n+(d.toNat - '0'.toNat))
      rw [if_neg hnext,if_neg (by omega)]
      rfl

/-- Digits have their value where it is below the limit, and none above it. -/
theorem Coefficient.value?_eq (c : Coefficient) : c.value? =
    if Decimal.ofDigits c.digits.toList < wordLimit then some (Decimal.ofDigits c.digits.toList)
    else none :=
  foldlM_shiftIn (by decide) c.digits.toList

lemma Term.size_lt {t : Term} {n : ℕ} (h : t.size = .ok n) : n < wordLimit := by
  unfold size at h
  split at h
  case h_1 =>
    obtain rfl := Except.ok.inj h
    decide
  case h_2 c _ =>
    rw [c.value?_eq] at h
    split_ifs at h with hlt
    · obtain rfl := Except.ok.inj h
      exact hlt

lemma addTerm_eq_ok {t : Term} {v : Variable} {n : ℕ} (hfind : r.find? t.name = some v)
    (hsize : t.size = .ok n) :
    addTerm r e t = .ok (e.add v.index (t.sign.apply (Scalar.ofNat n))) := by
  unfold addTerm
  rw [hfind,hsize]
  rfl

/-- What holds of the zeros and is kept when a term is added holds of the meaning of terms. -/
theorem meaning_induction {P : Equation K → Prop} (zeros : P (.zeros r))
    (add : ∀ e, P e → ∀ v ∈ r.members, ∀ (s : Sign) (n : ℕ), n < wordLimit →
      P (e.add v.index (s.apply (Scalar.ofNat n))))
    {terms : List Term} (h : meaning terms r = .ok e) : P e := by
  unfold meaning at h
  generalize (Equation.zeros r : Equation K) = start at h zeros
  induction terms generalizing start with
  | nil =>
    obtain rfl : start = e := Except.ok.inj h
    exact zeros
  | cons term terms ih =>
    rw [List.foldlM_cons,Except.bind_eq_ok] at h
    obtain ⟨next,hnext,h⟩ := h
    refine ih next h ?_
    unfold addTerm at hnext
    split at hnext
    case h_1 => contradiction
    case h_2 v hfind =>
      obtain ⟨n,hn,hnext⟩ := Except.bind_eq_ok.mp hnext
      obtain rfl := Except.ok.inj hnext
      exact add start zeros v (List.mem_of_find?_eq_some hfind) term.sign n (Term.size_lt hn)

/-- The meaning of terms mentions the variables of the registry and no others. -/
theorem contains_meaning {terms : List Term} (h : meaning terms r = .ok e) (i : ℕ) :
    e.contains i = true ↔ ∃ v ∈ r.members, v.index = i := by
  revert i
  refine meaning_induction (P := fun e : Equation K => ∀ i, e.contains i = true ↔
    ∃ v ∈ r.members, v.index = i) ?_ ?_ h
  · exact fun i => Equation.contains_zeros r i
  · intro e he v hv s n hn i
    rw [Equation.contains_add,he]
    constructor
    · rintro (rfl | h)
      · exact ⟨v,hv,rfl⟩
      · exact h
    · exact .inr

/-- An expression that was read mentions the variables of its registry and no others. -/
theorem contains_read {source : String} (h : read source r = .ok e) (i : ℕ) :
    e.contains i = true ↔ ∃ v ∈ r.members, v.index = i := by
  obtain ⟨terms,-,h⟩ := Except.bind_eq_ok.mp h
  exact contains_meaning h i

end Formula

end LinProg
