import LinProg.Proofs.CanonicalText
import LinProg.Proofs.Spelling

/-!
The canonical text of an expression is read again. Over the registry that the expression was read
with, it gives the expression back if 64 bits hold all coefficients, and otherwise the overflow of a
coefficient.
-/
namespace LinProg

namespace Equation
open Double Formula

/-- 64 bits hold every coefficient, apart from its sign. -/
def Fits (e : Equation Float) : Prop :=
  ∀ i c, e.get? i = some c → Scalar.magnitude c < Scalar.ofNat wordLimit

def addAll (e : Equation Float) (ps : List (Variable × Float)) : Equation Float :=
  ps.foldl (fun e p => e.add p.1.index p.2) e

/-- The terms are those of the expression, one for each variable in the order of the registry; a
variable without a term has coefficient 0. -/
structure Summands (e : Equation Float) (r : Registry) (ps : List (Variable × Float)) : Prop where
  sublist : (ps.map Prod.fst).Sublist r.members
  coefficient : ∀ p ∈ ps, e.get? p.1.index = some p.2
  rest : ∀ v ∈ r.members, v ∉ ps.map Prod.fst → e.get? v.index = some 0

section Sums
variable {e : Equation Float} {r : Registry} {ps : List (Variable × Float)}

lemma get?_addAll_of_ne {i : ℕ} (h : ∀ p ∈ ps, p.1.index ≠ i) :
    (e.addAll ps).get? i = e.get? i := by
  induction ps generalizing e with
  | nil => rfl
  | cons p ps ih =>
    have hp := h p (by simp)
    have := @ih (e.add p.1.index p.2) fun q hq => h q (List.mem_cons_of_mem p hq)
    rw [get?_add,if_neg hp.symm] at this
    exact this

lemma get?_addAll_of_mem (hps : (ps.map Prod.fst).Pairwise fun v w => v.index < w.index)
    {p : Variable × Float} (hp : p ∈ ps) :
    (e.addAll ps).get? p.1.index = some ((e.get? p.1.index).getD 0+p.2) := by
  induction ps generalizing e with
  | nil => simp at hp
  | cons q ps ih =>
    obtain ⟨hq,hps⟩ := List.pairwise_cons.mp hps
    have hlt : ∀ p ∈ ps, q.1.index < p.1.index := fun p hp => hq p.1 (List.mem_map_of_mem hp)
    change ((e.add q.1.index q.2).addAll ps).get? p.1.index = _
    rcases List.mem_cons.mp hp with rfl | hp
    · rw [get?_addAll_of_ne fun s hs => (hlt s hs).ne',get?_add,if_pos rfl]
    · rw [ih hps hp,get?_add,if_neg (hlt p hp).ne']

/-- The terms add up to the expression. -/
theorem Summands.addAll_eq (h : e.Summands r ps) (hr : r.Ordered) (he : e.Whole r) :
    (zeros r).addAll ps = e := by
  refine ext_get? fun i => ?_
  have hmember : ∀ p ∈ ps, p.1 ∈ r.members := fun p hp =>
    h.sublist.subset (List.mem_map_of_mem hp)
  by_cases hi : ∃ v ∈ r.members, v.index = i
  · obtain ⟨v,hv,rfl⟩ := hi
    have hzero : (zeros r : Equation Float).get? v.index = some 0 := by
      rw [get?_zeros,if_pos ⟨v,hv,rfl⟩]
    by_cases hp : v ∈ ps.map Prod.fst
    · obtain ⟨p,hmem,rfl⟩ := List.mem_map.mp hp
      have hget := h.coefficient p hmem
      obtain ⟨a,ha⟩ := he.denotes _ _ hget
      rw [get?_addAll_of_mem (hr.sublist h.sublist) hmem,hzero,hget]
      exact congrArg some ha.zero_add
    · rw [get?_addAll_of_ne,hzero,h.rest v hv hp]
      rintro q hq hindex
      obtain rfl : q.1 = v := hr.eq_of_index (hmember q hq) hv hindex
      exact hp (List.mem_map_of_mem hq)
  · rw [get?_addAll_of_ne fun p hp hindex => hi ⟨p.1,hmember p hp,hindex⟩,get?_zeros,if_neg hi]
    cases hget : e.get? i with
    | none => rfl
    | some c => exact absurd (he.exists_index hget) hi

end Sums

end Equation

namespace Formula
open Double

section Rereading
variable {e : Equation Float} {r : Registry} {t : Term} {ts : List Term} {p : Variable × Float}
  {ps : List (Variable × Float)}

lemma addTerm_of_lt (ht : t.Shows p) (hfind : r.find? p.1.name = some p.1)
    (hlt : Scalar.magnitude p.2 < Scalar.ofNat wordLimit) :
    addTerm r e t = .ok (e.add p.1.index p.2) := by
  obtain ⟨n,hsize,happly⟩ := ht.size hlt
  rw [← ht.name] at hfind
  rw [addTerm_eq_ok hfind hsize,happly]

lemma addTerm_of_not_lt (ht : t.Shows p) (hfind : r.find? p.1.name = some p.1)
    (hge : ¬ Scalar.magnitude p.2 < Scalar.ofNat wordLimit) :
    ∃ digits span, addTerm r e t = .error (.coefficientOverflow digits span) := by
  obtain ⟨digits,span,hsize⟩ := ht.overflow hge
  unfold addTerm
  rw [ht.name,hfind,hsize]
  exact ⟨digits,span,rfl⟩

lemma foldlM_addTerm (hts : List.Forall₂ Term.Shows ts ps)
    (hfind : ∀ p ∈ ps, r.find? p.1.name = some p.1)
    (hlt : ∀ p ∈ ps, Scalar.magnitude p.2 < Scalar.ofNat wordLimit) :
    ts.foldlM (addTerm r) e = .ok (e.addAll ps) := by
  induction hts generalizing e with
  | nil => rfl
  | cons ht hts ih =>
    rw [List.foldlM_cons,addTerm_of_lt ht (hfind _ (by simp)) (hlt _ (by simp))]
    exact ih (fun p hp => hfind p (List.mem_cons_of_mem _ hp))
      fun p hp => hlt p (List.mem_cons_of_mem _ hp)

lemma foldlM_addTerm_error (hts : List.Forall₂ Term.Shows ts ps)
    (hfind : ∀ p ∈ ps, r.find? p.1.name = some p.1)
    (hge : ∃ p ∈ ps, ¬ Scalar.magnitude p.2 < Scalar.ofNat wordLimit) :
    ∃ digits span, ts.foldlM (addTerm r) e = .error (.coefficientOverflow digits span) := by
  induction hts generalizing e with
  | nil => simp at hge
  | @cons t p ts ps ht hts ih =>
    rw [List.foldlM_cons]
    by_cases hlt : Scalar.magnitude p.2 < Scalar.ofNat wordLimit
    · rw [addTerm_of_lt ht (hfind p (by simp)) hlt]
      refine ih (fun q hq => hfind q (List.mem_cons_of_mem p hq)) ?_
      obtain ⟨q,hq,hge⟩ := hge
      rcases List.mem_cons.mp hq with rfl | hq
      · exact absurd hlt hge
      · exact ⟨q,hq,hge⟩
    · obtain ⟨digits,span,herror⟩ := addTerm_of_not_lt (e := e) ht (hfind p (by simp)) hlt
      rw [herror]
      exact ⟨digits,span,rfl⟩

end Rereading

section Summands
variable {e : Equation Float} {r : Registry}

/-- What is not shown is zero. -/
lemma get?_of_not_shown (he : e.Whole r) {v : Variable} (hv : v ∈ r.members)
    (hnot : v ∉ (e.shown r.members).map Prod.fst) : e.get? v.index = some 0 := by
  obtain ⟨c,hget⟩ := he.exists_get? hv
  have hc : (c == 0) = true := by
    by_contra hc
    have := Equation.mem_shown hv hget (by simpa using hc)
    exact hnot (List.mem_map_of_mem this)
  rw [hget,he.eq_zero hget hc]

lemma showable_of_mem_shown (hr : r.Nameable) (he : e.Whole r) {p : Variable × Float}
    (hp : p ∈ e.shown r.members) : Showable p := by
  obtain ⟨hget,hc⟩ := Equation.get?_of_mem_shown hp
  obtain ⟨a,ha⟩ := he.denotes _ _ hget
  refine ⟨hr.word p.1 ?_,a,?_,ha⟩
  · exact (e.sublist_shown r.members).subset (List.mem_map_of_mem hp)
  · rintro rfl
    rw [ha.beq_zero_iff.mpr rfl] at hc
    contradiction

/-- The text of an expression is an expression whose terms show its summands. -/
lemma exists_summands (hr : r.Nameable) (hne : r.members ≠ []) (he : e.Whole r) :
    ∃ (w : Written) (ps : List (Variable × Float)), w.text = (e.text r).toList ∧
      List.Forall₂ Term.Shows w.terms ps ∧ e.Summands r ps := by
  have hrest := fun v hv => get?_of_not_shown (v := v) he hv
  have hshowable := fun p hp => showable_of_mem_shown (p := p) hr he hp
  have htext := e.textFrom_eq "" r.members
  cases hshown : e.shown r.members with
  | nil =>
    obtain ⟨first,others,hmembers⟩ := List.exists_cons_of_ne_nil hne
    rw [hshown] at hrest htext
    have hfirst : first ∈ r.members := by simp [hmembers]
    obtain ⟨w,hw,hterms⟩ := exists_zero_written (hr.word first hfirst)
    refine ⟨w,[(first,0)],?_,hterms,?_,?_,fun v hv _ => hrest v hv (by simp)⟩
    · rw [hw,Equation.text,htext,hmembers]
      rfl
    · rw [hmembers]
      exact (List.nil_sublist others).cons_cons first
    · rintro p hp
      obtain rfl := List.mem_singleton.mp hp
      exact hrest first hfirst (by simp)
  | cons p ps =>
    rw [hshown] at hshowable htext
    obtain ⟨w,hw,hterms⟩ := exists_written hshowable
    have hempty : (e.textFrom "" r.members).isEmpty = false := by
      rw [String.isEmpty_eq_false_iff,htext,ne_eq,← String.toList_inj,← hw]
      exact w.text_ne_nil
    rw [← hshown] at hterms
    refine ⟨w,e.shown r.members,?_,hterms,e.sublist_shown _,
      fun q hq => (Equation.get?_of_mem_shown hq).1,hrest⟩
    rw [hw,Equation.text,hempty,htext]
    rfl

/-- If all summands fit into 64 bits, then so does the expression. -/
lemma fits_of_summands (he : e.Whole r) {ps : List (Variable × Float)} (h : e.Summands r ps)
    (hps : ∀ p ∈ ps, Scalar.magnitude p.2 < Scalar.ofNat wordLimit) : e.Fits := by
  intro i c hget
  obtain ⟨v,hv,rfl⟩ := he.exists_index hget
  by_cases hp : v ∈ ps.map Prod.fst
  · obtain ⟨p,hmem,rfl⟩ := List.mem_map.mp hp
    obtain rfl := Option.some.inj (hget.symm.trans (h.coefficient p hmem))
    exact hps p hmem
  · obtain rfl := Option.some.inj (hget.symm.trans (h.rest v hv hp))
    exact magnitude_zero_lt

end Summands

/-- Read again, the text of an expression that was read gives this expression, unless one of its
coefficients takes more than 64 bits: then it gives an error. -/
theorem read_text_of_nameable {e : Equation Float} {r : Registry} {source : String}
    (hr : r.Nameable) (hne : r.members ≠ []) (h : read source r = .ok e) :
    (e.Fits → read (e.text r) r = .ok e) ∧ (¬ e.Fits →
      ∃ digits span, (read (e.text r) r : Except ParseError (Equation Float)) =
        .error (.coefficientOverflow digits span)) := by
  have he := whole_of_read h
  obtain ⟨w,ps,htext,hterms,hsum⟩ := exists_summands hr hne he
  have hfind : ∀ p ∈ ps, r.find? p.1.name = some p.1 := fun p hp =>
    hr.found p.1 (hsum.sublist.subset (List.mem_map_of_mem hp))
  have hread : (read (e.text r) r : Except ParseError (Equation Float)) =
      w.terms.foldlM (addTerm r) (.zeros r) := by
    rw [read,parse_written htext]
    rfl
  rw [hread]
  constructor
  · intro hfits
    rw [foldlM_addTerm hterms hfind fun p hp => hfits _ _ (hsum.coefficient p hp),
      hsum.addAll_eq hr.ordered he]
  · intro hover
    refine foldlM_addTerm_error hterms hfind ?_
    by_contra hall
    refine hover (fits_of_summands he hsum fun p hp => ?_)
    by_contra hge
    exact hall ⟨p,hp,hge⟩

section Single
variable {n : ℕ}

/-- What one term of the only variable denotes. -/
def single (n : ℕ) : Equation Float := (Equation.zeros (.numbered "X" 1)).add 1 (Scalar.ofNat n)

lemma read_single (hn : n < wordLimit) :
    read (toString n ++ "X1") (.numbered "X" 1) = .ok (single n) := by
  let b : Body := ⟨Nat.toDigits 10 n,['X'],['1'],
    fun c hc => Decimal.isDigit_of_mem_toDigits hc,by simp,by simp,by simp⟩
  let w : Written := ⟨.none,.none,b,.finish .none⟩
  have hw : w.text = (toString n ++ "X1").toList := by
    simp [w,b,Written.text,Written.signText,Blanks.none,Tail.text,Body.text,Body.name]
  have hfind : (Registry.numbered "X" 1).find? (b.term none 0).name =
      some { name := "X1", index := 1, kind := .decision } :=
    Registry.find?_numbered (v := { name := "X1", index := 1, kind := .decision }) (by decide)
  have hdigits : Decimal.ofDigits b.digits = n := Decimal.ofDigits_toDigits n
  have hsize := @Body.size_term_of_lt b none 0 Nat.toDigits_ne_nil (by rwa [hdigits])
  rw [hdigits] at hsize
  have hadd := addTerm_eq_ok (e := (Equation.zeros (.numbered "X" 1) : Equation Float)) hfind hsize
  rw [read,parse_written hw]
  change (addTerm _ _ (b.term none 0) >>= fun e => .ok e) = _
  rw [hadd]
  rfl

lemma get?_single (n : ℕ) : (single n).get? 1 = some (0+Scalar.ofNat n) := by
  rw [single,Equation.get?_add,if_pos rfl,Equation.get?_zeros,if_pos (by decide)]
  rfl

lemma fits_single_iff (n : ℕ) :
    (single n).Fits ↔ Scalar.magnitude ((0:Float)+Scalar.ofNat n) < Scalar.ofNat wordLimit := by
  refine ⟨fun h => h 1 _ (get?_single n),fun h i c hget => ?_⟩
  have hcontains : (single n).contains i = true := by
    rw [Equation.contains,hget]
    rfl
  obtain rfl : i = 1 := by
    rw [single,Equation.contains_add,Equation.contains_zeros] at hcontains
    rcases hcontains with hi | ⟨v,hv,rfl⟩
    · exact hi
    · obtain rfl := List.mem_singleton.mp hv
      rfl
  obtain rfl := Option.some.inj ((get?_single n).symm.trans hget)
  exact h

end Single

/-- The canonical text of an expression over `X1`, …, `Xn` that was read is read as the same
expression if its coefficients are below `2 ^ 64`, and otherwise as the overflow of a coefficient. -/
theorem read_text {n : ℕ} {source : String} {e : Equation Float} (hn : 0 < n)
    (h : read source (.numbered "X" n) = .ok e) :
    (e.Fits → read (e.text (.numbered "X" n)) (.numbered "X" n) = .ok e) ∧ (¬ e.Fits →
      ∃ digits span, (read (e.text (.numbered "X" n)) (.numbered "X" n) :
        Except ParseError (Equation Float)) = .error (.coefficientOverflow digits span)) := by
  refine read_text_of_nameable (Registry.nameable_numbered n) ?_ h
  rw [ne_eq,← List.length_eq_zero_iff]
  change ¬ (Registry.numbered "X" n).size = 0
  rw [Registry.size_numbered]
  omega

/-- A coefficient of 3 is read again. -/
theorem read_text_three : 0 < 1 ∧ read "3X1" (.numbered "X" 1) = .ok (single 3) ∧
    (single 3).Fits ∧
      read ((single 3).text (.numbered "X" 1)) (.numbered "X" 1) = .ok (single 3) := by
  have h : read "3X1" (.numbered "X" 1) = .ok (single 3) := by
    exact @read_single 3 (by decide)
  have hfits : (single 3).Fits := (fits_single_iff 3).mpr (by decide)
  exact ⟨by decide,h,hfits,(read_text (by decide) h).1 hfits⟩

/-- The greatest coefficient of 64 bits is rounded to `2 ^ 64`, and what is printed for that is not
read any more. -/
theorem text_not_read : ∃ e : Equation Float,
    read "18446744073709551615X1" (.numbered "X" 1) = .ok e ∧
      read (e.text (.numbered "X" 1)) (.numbered "X" 1) ≠ .ok e := by
  have h : read "18446744073709551615X1" (.numbered "X" 1) = .ok (single 18446744073709551615) := by
    exact @read_single 18446744073709551615 (by decide)
  have hover : ¬ (single 18446744073709551615).Fits := by
    have hround : Scalar.ofNat 18446744073709551615 = (Scalar.ofNat wordLimit : Float) := by rfl
    have hlimit := denotes_wordLimit
    rw [fits_single_iff,hround,hlimit.zero_add,hlimit.magnitude.lt_iff hlimit]
    decide
  obtain ⟨digits,span,herror⟩ := (read_text_of_nameable (Registry.nameable_numbered 1)
    (by decide) h).2 hover
  refine ⟨_,h,?_⟩
  rw [herror]
  simp

end Formula

end LinProg
