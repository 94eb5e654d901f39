import LinProg.Formula.Meaning
import LinProg.Proofs.Acceptance
import LinProg.Proofs.RegistryOrder

/-!
White space around an expression. It moves the terms, but what they spell stays the same, so the
text is read to the same expression with or without it.
-/
namespace LinProg

namespace Formula

/-- Only white space is trimmed. -/
lemma exists_trim (text : List Char) : ∃ front back : Blanks,
    text = front.chars ++ Text.trim text ++ back.chars := by
  have hblank : ∀ cs : List Char, ∀ c ∈ cs.takeWhile Text.isBlank, Text.isBlank c = true :=
    fun cs => List.all_eq_true.mp List.all_takeWhile
  let rest := text.dropWhile Text.isBlank
  refine ⟨⟨text.takeWhile Text.isBlank,hblank text⟩,
    ⟨(rest.reverse.takeWhile Text.isBlank).reverse,fun c hc => ?_⟩,?_⟩
  · exact hblank _ c (List.mem_reverse.mp hc)
  · rw [List.append_assoc,Text.trim,← List.reverse_append,List.takeWhile_append_dropWhile,
      List.reverse_reverse,List.takeWhile_append_dropWhile]

lemma Blanks.charKind (b : Blanks) : ∀ c ∈ b.chars, Formula.charKind c = .blank := fun c hc =>
  charKind_of_isBlank (b.isBlank c hc)

def Blanks.append (a b : Blanks) : Blanks :=
  ⟨a.chars ++ b.chars,List.forall_mem_append.mpr ⟨a.isBlank,b.isBlank⟩⟩

/-- The terms say the same, perhaps at different places. -/
structure Term.SameWords (t t' : Term) : Prop where
  sign : t.sign = t'.sign
  digits : t.coefficient?.map Coefficient.digits = t'.coefficient?.map Coefficient.digits
  name : t.name = t'.name

section Meaning
variable {K : Type} [Scalar K] {r : Registry}

lemma Term.SameWords.toOption_size {t t' : Term} (h : t.SameWords t') :
    t.size.toOption = t'.size.toOption := by
  have hdigits := h.digits
  unfold Term.size
  cases hc : t.coefficient? with
  | none =>
    rw [hc,Option.map_none,eq_comm,Option.map_eq_none_iff] at hdigits
    rw [hdigits]
  | some c =>
    rw [hc,Option.map_some,eq_comm,Option.map_eq_some_iff] at hdigits
    obtain ⟨c',hc',hdigits⟩ := hdigits
    have hvalue : c.value? = c'.value? := by rw [Coefficient.value?,Coefficient.value?,hdigits]
    rw [hc']
    dsimp only
    rw [hvalue]
    cases c'.value? <;> rfl

lemma Term.SameWords.toOption_addTerm {t t' : Term} (h : t.SameWords t') (e : Equation K) :
    (addTerm r e t).toOption = (addTerm r e t').toOption := by
  have hsize := h.toOption_size
  unfold addTerm
  rw [h.name,h.sign]
  cases r.find? t'.name with
  | none => rfl
  | some v =>
    cases hs : t.size <;> cases hs' : t'.size <;> rw [hs,hs'] at hsize
    · rfl
    · cases hsize
    · cases hsize
    · rw [Option.some.inj hsize]

/-- Where the terms stand does not matter to what they mean. -/
theorem toOption_meaning {ts ts' : List Term} (h : List.Forall₂ Term.SameWords ts ts') :
    (meaning ts r : Except _ (Equation K)).toOption = (meaning ts' r).toOption := by
  unfold meaning
  generalize (Equation.zeros r : Equation K) = e
  induction h generalizing e with
  | nil => rfl
  | @cons t t' ts ts' ht hts ih =>
    have hadd := ht.toOption_addTerm (r := r) e
    rw [List.foldlM_cons,List.foldlM_cons]
    cases h1 : addTerm r e t <;> cases h2 : addTerm r e t' <;> rw [h1,h2] at hadd
    · rfl
    · cases hadd
    · cases hadd
    · obtain rfl := Option.some.inj hadd
      exact ih _

end Meaning

def Tail.pad (back : Blanks) : Tail → Tail
  | finish after => finish (after.append back)
  | more before sign behind body rest => more before sign behind body (rest.pad back)

lemma Tail.text_pad (r : Tail) (back : Blanks) : (r.pad back).text = r.text ++ back.chars := by
  induction r with
  | finish after => rfl
  | more before sign behind body rest ih => simp [pad,text,ih]

lemma Body.sameWords_term (b : Body) {s s' : Option (Sign × ℕ)}
    (h : s.map Prod.fst = s'.map Prod.fst) (offset offset' : ℕ) :
    (b.term s offset).SameWords (b.term s' offset') where
  sign := by rw [Body.term,Body.term,h]
  digits := by
    simp only [Body.term]
    split <;> rfl
  name := rfl

lemma Tail.sameWords_pad (r : Tail) (back : Blanks) (offset offset' : ℕ) :
    List.Forall₂ Term.SameWords (r.terms offset) ((r.pad back).terms offset') := by
  induction r generalizing offset offset' with
  | finish after => exact .nil
  | more before sign behind body rest ih => exact .cons (body.sameWords_term (by rfl) _ _) (ih _ _)

def Written.pad (front back : Blanks) (w : Written) : Written :=
  { w with before := front.append w.before, rest := w.rest.pad back }

lemma Written.text_pad (front back : Blanks) (w : Written) :
    (w.pad front back).text = front.chars ++ w.text ++ back.chars := by
  simp [pad,text,signText,Tail.text_pad,Blanks.append]

/-- White space around an expression leaves its words as they are. -/
theorem Written.sameWords_pad (front back : Blanks) (w : Written) :
    List.Forall₂ Term.SameWords w.terms (w.pad front back).terms := by
  refine .cons (w.body.sameWords_term ?_ _ _) (w.rest.sameWords_pad back _ _)
  simp [pad,Option.map_map,Function.comp_def]

namespace Stage

lemma stuckAt?_blanks (st : Stage) (back : Blanks) :
    st.stuckAt? back.chars = none ↔ st.stuckAt? [] = none := by
  have hrun : ∀ {st : Stage}, st.next .blank = some st →
      st.stuckAt? back.chars = st.stuckAt? [] := by
    intro st h
    have : st.stuckAt? (back.chars ++ []) = st.stuckAt? [] := stuckAt?_run h back.charKind
    rwa [List.append_nil] at this
  cases st
  case opening | signed | closed => rw [hrun rfl]
  case counting =>
    obtain ⟨chars,hb⟩ := back
    cases chars with
    | nil => rfl
    | cons c cs =>
      rw [stuckAt?_of_next_eq_none (by rw [charKind_of_isBlank (hb c (by simp))]; rfl)]
      simp [stuckAt?,ends]
  case lettered | indexed =>
    have hhead : ∀ c ∈ back.chars.head?, charKind c = .blank := fun c hc =>
      back.charKind c (List.mem_of_mem_head? hc)
    rw [stuckAt?_name (by simp) (fun c hc => by simp [hhead c hc]) fun _ c hc => by
      simp [hhead c hc],hrun rfl]
    rfl

/-- White space behind a text does not change whether it gets stuck. -/
lemma stuckAt?_append_blanks (st : Stage) (cs : List Char) (back : Blanks) :
    st.stuckAt? (cs ++ back.chars) = none ↔ st.stuckAt? cs = none := by
  induction cs generalizing st with
  | nil => exact st.stuckAt?_blanks back
  | cons c cs ih =>
    rw [List.cons_append,stuckAt?,stuckAt?]
    cases st.next (charKind c) with
    | none => simp
    | some st' => exact ih st'

end Stage

section Read
variable {K : Type} [Scalar K] (r : Registry) (e : Equation K)

lemma read_written (w : Written) : (read (String.ofList w.text) r : Except _ (Equation K)) =
    meaning w.terms r := by
  rw [read,parse_written String.toList_ofList.symm]
  rfl

/-- White space around a text makes no difference to what it is read to. -/
theorem read_padded (front back : Blanks) (cs : List Char) :
    read (String.ofList (front.chars ++ cs ++ back.chars)) r = .ok e ↔
      read (String.ofList cs) r = .ok e := by
  have hsame : (∃ w : Written, w.text = cs) →
      (read (String.ofList (front.chars ++ cs ++ back.chars)) r = .ok e ↔
        read (String.ofList cs) r = .ok e) := by
    rintro ⟨w,rfl⟩
    rw [← w.text_pad,read_written,read_written,← Except.toOption_eq_some,
      ← Except.toOption_eq_some,toOption_meaning (w.sameWords_pad front back)]
  constructor
  · intro h
    obtain ⟨terms,hparse,-⟩ := Except.bind_eq_ok.mp h
    have hstuck := accepts_iff.mp ⟨terms,hparse⟩
    rw [String.toList_ofList,Stage.stuckAt?_append_blanks,
      Stage.stuckAt?_run rfl front.charKind] at hstuck
    exact (hsame (Stage.completes_of_stuckAt?_eq_none hstuck)).mp h
  · intro h
    obtain ⟨terms,hparse,-⟩ := Except.bind_eq_ok.mp h
    obtain ⟨w,hw⟩ := exists_written_of_parse hparse
    exact (hsame ⟨w,hw.trans String.toList_ofList⟩).mpr h

/-- A text is read as what is left of it without the white space at its ends. -/
theorem read_trim (cs : List Char) :
    read (String.ofList (Text.trim cs)) r = .ok e ↔ read (String.ofList cs) r = .ok e := by
  obtain ⟨front,back,hcs⟩ := exists_trim cs
  conv_rhs => rw [hcs]
  exact (read_padded r e front back _).symm

end Read

end Formula

end LinProg
