import LinProg.Proofs.Coefficients
import LinProg.Proofs.RegistryHistory

/-!
The meaning of the terms of an expression, whatever text they come from. Each variable of the
registry gets the sum of what the terms with its name contribute; the first term that is wrong makes
the error.
-/
namespace LinProg

/-- A fold fails with the first step that does. -/
lemma Except.foldlM_eq_error {ε α β : Type} {f : β → α → Except ε β} {b : β} {l : List α} {m : ε} :
    l.foldlM f b = .error m ↔ ∃ front x back b', l = front ++ x::back ∧
      front.foldlM f b = .ok b' ∧ f b' x = .error m := by
  induction l generalizing b with
  | nil => simp [pure,Except.pure]
  | cons x l ih =>
    rw [List.foldlM_cons,bind_eq_error]
    constructor
    · rintro (h | ⟨c,hc,h⟩)
      · exact ⟨[],x,l,b,rfl,rfl,h⟩
      · obtain ⟨front,y,back,b',rfl,hfront,hy⟩ := ih.mp h
        refine ⟨x::front,y,back,b',rfl,?_,hy⟩
        rw [List.foldlM_cons,hc]
        exact hfront
    · rintro ⟨front,y,back,b',hl,hfront,hy⟩
      cases front with
      | nil =>
        obtain ⟨rfl,rfl⟩ := List.cons.inj hl
        obtain rfl : b = b' := Except.ok.inj hfront
        exact .inl hy
      | cons z front =>
        obtain ⟨rfl,rfl⟩ := List.cons.inj hl
        obtain ⟨c,hc,hfront⟩ := bind_eq_ok.mp ((List.foldlM_cons ..).symm.trans hfront)
        exact .inr ⟨c,hc,ih.mpr ⟨front,y,back,b',rfl,hfront,hy⟩⟩

lemma Registry.find?_eq_none {r : Registry} {name : String} :
    r.find? name = none ↔ ∀ v ∈ r.members, v.isNamed name = false := by
  simp [find?]

lemma Registry.exists_find?_eq_some {r : Registry} {name : String} :
    (∃ w, r.find? name = some w) ↔ ∃ v ∈ r.members, v.isNamed name = true :=
  Option.isSome_iff_exists.symm.trans List.find?_isSome

/-- The variable that is found under a name is the only one with this name. -/
lemma Registry.Proper.isNamed_iff {r : Registry} (hr : r.Proper) {name : String} {v w : Variable}
    (hw : r.find? name = some w) (hv : v ∈ r.members) : v.isNamed name = true ↔ v = w := by
  have hmem : v ∈ r.matching name ↔ v = w := by rw [hr.matching_eq,hw]; simp
  rw [← hmem,matching,List.mem_filter,and_iff_right hv]

namespace Formula

namespace Term

/-- The number that the digits of a term denote, 1 if there are none. -/
def count (t : Term) : ℕ := (t.coefficient?.map fun c => Decimal.ofDigits c.digits.toList).getD 1

def amount (t : Term) : ℤ :=
  match t.sign with
  | .plus => t.count
  | .minus => -t.count

/-- The name of the term belongs to a variable, and 64 bits hold its digits. -/
structure Sound (r : Registry) (t : Term) : Prop where
  named : ∃ v ∈ r.members, v.isNamed t.name = true
  fits : ∀ c ∈ t.coefficient?, Decimal.ofDigits c.digits.toList < wordLimit

/-- What is wrong with a term. Its digits matter only if there is a variable for it. -/
inductive Fails (r : Registry) (t : Term) : ParseError → Prop
  | undeclared (h : ∀ v ∈ r.members, v.isNamed t.name = false) :
      Fails r t (.undeclaredVariable t.name t.nameSpan)
  | overflow {c : Coefficient} (hname : ∃ v ∈ r.members, v.isNamed t.name = true)
      (hc : t.coefficient? = some c) (h : wordLimit ≤ Decimal.ofDigits c.digits.toList) :
      Fails r t (.coefficientOverflow c.digits c.span)

section Size
variable {t : Term}

lemma size_of_fits (h : ∀ c ∈ t.coefficient?, Decimal.ofDigits c.digits.toList < wordLimit) :
    t.size = .ok t.count := by
  unfold size count
  cases hc : t.coefficient? with
  | none => rfl
  | some c => simp [c.value?_eq,h c hc]

lemma size_of_ge {c : Coefficient} (hc : t.coefficient? = some c)
    (h : wordLimit ≤ Decimal.ofDigits c.digits.toList) :
    t.size = .error (.coefficientOverflow c.digits c.span) := by
  simp [size,hc,c.value?_eq,Nat.not_lt.mpr h]

end Size

end Term

section Steps
variable {K : Type} [Scalar K] {r : Registry} {t : Term} {m : ParseError}

lemma addTerm_of_sound (h : t.Sound r) : ∃ w, r.find? t.name = some w ∧ ∀ e : Equation K,
    addTerm r e t = .ok (e.add w.index (t.sign.apply (Scalar.ofNat t.count))) := by
  obtain ⟨w,hfind⟩ := Registry.exists_find?_eq_some.mpr h.named
  exact ⟨w,hfind,fun e => addTerm_eq_ok hfind (Term.size_of_fits h.fits)⟩

lemma addTerm_of_fails (h : t.Fails r m) (e : Equation K) : addTerm r e t = .error m := by
  unfold addTerm
  cases h with
  | undeclared h => rw [Registry.find?_eq_none.mpr h]
  | overflow hname hc h =>
    obtain ⟨w,hfind⟩ := Registry.exists_find?_eq_some.mpr hname
    rw [hfind,Term.size_of_ge hc h]
    rfl

/-- A term that is not sound fails in one way. -/
lemma Term.sound_or_fails (r : Registry) (t : Term) : t.Sound r ∨ ∃ m, t.Fails r m := by
  by_cases hname : ∃ v ∈ r.members, v.isNamed t.name = true
  · cases hc : t.coefficient? with
    | none => exact .inl ⟨hname,by simp [hc]⟩
    | some c =>
      rcases Nat.lt_or_ge (Decimal.ofDigits c.digits.toList) wordLimit with hlt | hge
      · exact .inl ⟨hname,by simpa [hc] using hlt⟩
      · exact .inr ⟨_,.overflow hname hc hge⟩
  · exact .inr ⟨_,.undeclared (by simpa using hname)⟩

lemma addTerm_eq_error {e : Equation K} : addTerm r e t = .error m ↔ t.Fails r m := by
  refine ⟨fun h => ?_,fun h => addTerm_of_fails h e⟩
  rcases t.sound_or_fails r with hsound | ⟨m',hfails⟩
  · obtain ⟨w,-,hadd⟩ := addTerm_of_sound (K := K) hsound
    rw [hadd] at h
    contradiction
  · rw [addTerm_of_fails hfails] at h
    exact Except.error.inj h ▸ hfails

lemma exists_addTerm_iff {e : Equation K} : (∃ e', addTerm r e t = .ok e') ↔ t.Sound r := by
  constructor
  · rintro ⟨e',he'⟩
    rcases t.sound_or_fails r with hsound | ⟨m,hfails⟩
    · exact hsound
    · rw [addTerm_of_fails hfails] at he'
      contradiction
  · intro h
    obtain ⟨w,-,hadd⟩ := addTerm_of_sound (K := K) h
    exact ⟨_,hadd e⟩

/-- Terms can be added up if each of them is sound. -/
lemma exists_foldlM_addTerm_iff {e : Equation K} {terms : List Term} :
    (∃ e' : Equation K, terms.foldlM (addTerm r) e = .ok e') ↔ ∀ t ∈ terms, t.Sound r := by
  induction terms generalizing e with
  | nil => exact iff_of_true ⟨e,rfl⟩ (by simp)
  | cons t terms ih =>
    rw [List.foldlM_cons,Except.exists_bind_eq_ok,List.forall_mem_cons]
    simp only [ih]
    rw [← exists_addTerm_iff (e := e),exists_and_right]

/-- The error is that of the first term that fails. -/
theorem foldlM_addTerm_eq_error {e : Equation K} {terms : List Term} :
    terms.foldlM (addTerm r) e = .error m ↔
      ∃ front t back, terms = front ++ t::back ∧ (∀ u ∈ front, u.Sound r) ∧ t.Fails r m := by
  rw [Except.foldlM_eq_error]
  constructor
  · rintro ⟨front,t,back,e',rfl,hfront,ht⟩
    exact ⟨front,t,back,rfl,exists_foldlM_addTerm_iff.mp ⟨e',hfront⟩,addTerm_eq_error.mp ht⟩
  · rintro ⟨front,t,back,rfl,hfront,ht⟩
    obtain ⟨e',he'⟩ := (exists_foldlM_addTerm_iff (e := e)).mpr hfront
    exact ⟨front,t,back,e',rfl,he',addTerm_of_fails ht e'⟩

end Steps

def total (v : Variable) (terms : List Term) : ℤ :=
  ((terms.filter fun t => v.isNamed t.name).map Term.amount).sum

lemma total_cons (v : Variable) (t : Term) (terms : List Term) :
    total v (t::terms) = (if v.isNamed t.name then t.amount else 0)+total v terms := by
  unfold total
  rw [List.filter_cons]
  split <;> simp

lemma total_perm (v : Variable) {terms terms' : List Term} (h : terms.Perm terms') :
    total v terms = total v terms' :=
  ((h.filter _).map _).sum_eq

/-- The expression has a coefficient for each variable of the registry and no other ones, the sum of
what the terms contribute. -/
structure Sums (r : Registry) (terms : List Term) (e : Equation ℚ) : Prop where
  mentions : ∀ i, e.contains i = true ↔ ∃ v ∈ r.members, v.index = i
  coefficient : ∀ v ∈ r.members, e.get? v.index = some (total v terms : ℚ)

section Sums
variable {r : Registry} {e e' : Equation ℚ} {terms : List Term}

lemma apply_count (t : Term) : t.sign.apply (Scalar.ofNat t.count : ℚ) = (t.amount : ℚ) := by
  unfold Term.amount
  cases t.sign with
  | plus => exact (Int.cast_natCast t.count).symm
  | minus =>
    rw [Int.cast_neg,Int.cast_natCast]
    rfl

/-- A term goes to the variable that it names. -/
lemma get?_addTerm (hr : r.Proper) {t : Term} (h : addTerm r e t = .ok e') {v : Variable}
    (hv : v ∈ r.members) {c : ℚ} (hc : e.get? v.index = some c) :
    e'.get? v.index = some (c+((if v.isNamed t.name then t.amount else 0 : ℤ) : ℚ)) := by
  obtain ⟨w,hfind,hadd⟩ := addTerm_of_sound (K := ℚ) (exists_addTerm_iff.mp ⟨e',h⟩)
  rw [hadd] at h
  obtain rfl := Except.ok.inj h
  have hw := List.mem_of_find?_eq_some hfind
  rw [Equation.get?_add,apply_count]
  by_cases hname : v.isNamed t.name = true
  · obtain rfl := (hr.isNamed_iff hfind hv).mp hname
    rw [if_pos rfl,if_pos hname,hc]
    rfl
  · have hne : v.index ≠ w.index := fun h =>
      hname ((hr.isNamed_iff hfind hv).mpr (hr.ordered.eq_of_index hv hw h))
    rw [if_neg hne,if_neg hname,hc,Int.cast_zero,add_zero]

lemma get?_foldlM_addTerm (hr : r.Proper) (h : terms.foldlM (addTerm r) e = .ok e') {v : Variable}
    (hv : v ∈ r.members) {c : ℚ} (hc : e.get? v.index = some c) :
    e'.get? v.index = some (c+(total v terms : ℚ)) := by
  induction terms generalizing e c with
  | nil =>
    obtain rfl : e = e' := Except.ok.inj h
    simpa [total] using hc
  | cons t terms ih =>
    obtain ⟨e1,he1,h⟩ := Except.bind_eq_ok.mp ((List.foldlM_cons ..).symm.trans h)
    rw [ih h (get?_addTerm hr he1 hv hc),total_cons,Int.cast_add,add_assoc]

lemma sums_of_meaning (hr : r.Proper) (h : meaning terms r = .ok e) : Sums r terms e := by
  refine ⟨contains_meaning h,fun v hv => ?_⟩
  have hzero : (Equation.zeros r : Equation ℚ).get? v.index = some 0 := by
    rw [Equation.get?_zeros,if_pos ⟨v,hv,rfl⟩]
  rw [get?_foldlM_addTerm hr h hv hzero,zero_add]

lemma Sums.unique (h : Sums r terms e) (h' : Sums r terms e') : e = e' := by
  refine Equation.ext_get? fun i => ?_
  by_cases hi : ∃ v ∈ r.members, v.index = i
  · obtain ⟨v,hv,rfl⟩ := hi
    rw [h.coefficient v hv,h'.coefficient v hv]
  · have hnone : ∀ {e : Equation ℚ}, Sums r terms e → e.get? i = none := fun h => by
      rw [← h.mentions,Equation.contains,Bool.not_eq_true,Option.isSome_eq_false_iff] at hi
      exact Option.isNone_iff_eq_none.mp hi
    rw [hnone h,hnone h']

lemma Sums.perm {terms' : List Term} (h : Sums r terms e) (hp : terms.Perm terms') :
    Sums r terms' e :=
  ⟨h.mentions,fun v hv => total_perm v hp ▸ h.coefficient v hv⟩

end Sums

/-- Over a registry that came about by changes of the empty one, terms have a meaning if all of them
are sound. It is the expression with the sums of what they contribute, in whatever order. Otherwise
the error is that of the first term that fails. -/
theorem meaning_sums (es : List Edit) (terms : List Term) :
    ((∃ e : Equation ℚ, meaning terms (.ofEdits es) = .ok e) ↔
      ∀ t ∈ terms, t.Sound (.ofEdits es)) ∧
    (∀ e : Equation ℚ, meaning terms (.ofEdits es) = .ok e ↔
      (∀ t ∈ terms, t.Sound (.ofEdits es)) ∧ Sums (.ofEdits es) terms e) ∧
    (∀ terms' : List Term, terms.Perm terms' → ∀ e : Equation ℚ,
      meaning terms (.ofEdits es) = .ok e ↔ meaning terms' (.ofEdits es) = .ok e) ∧
    ∀ m, (meaning terms (.ofEdits es) : Except ParseError (Equation ℚ)) = .error m ↔
      ∃ front t back, terms = front ++ t::back ∧ (∀ u ∈ front, u.Sound (.ofEdits es)) ∧
        t.Fails (.ofEdits es) m := by
  have hr := Registry.proper_ofEdits es
  have hok : ∀ (terms : List Term) (e : Equation ℚ), meaning terms (.ofEdits es) = .ok e ↔
      (∀ t ∈ terms, t.Sound (.ofEdits es)) ∧ Sums (.ofEdits es) terms e := by
    refine fun terms e => ⟨fun h => ⟨exists_foldlM_addTerm_iff.mp ⟨e,h⟩,sums_of_meaning hr h⟩,?_⟩
    rintro ⟨hsound,hsums⟩
    obtain ⟨e',he'⟩ := (exists_foldlM_addTerm_iff (e := (.zeros _ : Equation ℚ))).mpr hsound
    exact hsums.unique (sums_of_meaning hr he') ▸ he'
  refine ⟨exists_foldlM_addTerm_iff,hok terms,fun terms' hp e => ?_,fun m => foldlM_addTerm_eq_error⟩
  rw [hok,hok]
  refine and_congr (by simp only [hp.mem_iff]) ⟨fun h => h.perm hp,fun h => h.perm hp.symm⟩

end Formula

end LinProg
