import LinProg.Proofs.Faults

/-!
The texts that are accepted are the written expressions. A text that never gets stuck is read into
one from its end: what is left at each stage is completed by the character before it.
-/
namespace LinProg

namespace Formula

/-- The text is what an expression goes on with from a stage to its end. -/
def Stage.Completes : Stage → List Char → Prop
  | opening, cs => ∃ w : Written, w.text = cs
  | signed, cs => ∃ (behind : Blanks) (body : Body) (rest : Tail),
    behind.chars ++ (body.text ++ rest.text) = cs
  | counting, cs => ∃ (body : Body) (rest : Tail), body.text ++ rest.text = cs
  | lettered, cs => ∃ (letters index : List Char) (rest : Tail),
    (∀ c ∈ letters, c.isAlpha = true) ∧ (∀ c ∈ index, c.isDigit = true) ∧
      letters ++ (index ++ rest.text) = cs
  | indexed, cs => ∃ (index : List Char) (rest : Tail),
    (∀ c ∈ index, c.isDigit = true) ∧ index ++ rest.text = cs
  | closed, cs => ∃ rest : Tail, rest.text = cs

namespace Stage
variable {c : Char} {cs : List Char}

lemma signed_completes (h : counting.Completes cs) : signed.Completes cs := by
  obtain ⟨body,rest,h⟩ := h
  exact ⟨.none,body,rest,h⟩

lemma opening_completes (h : signed.Completes cs) : opening.Completes cs := by
  obtain ⟨behind,body,rest,h⟩ := h
  exact ⟨⟨behind,none,body,rest⟩,h⟩

lemma indexed_completes (h : closed.Completes cs) : indexed.Completes cs := by
  obtain ⟨rest,h⟩ := h
  exact ⟨[],rest,by simp,h⟩

lemma lettered_completes (h : indexed.Completes cs) : lettered.Completes cs := by
  obtain ⟨index,rest,hi,h⟩ := h
  exact ⟨[],index,rest,by simp,hi,h⟩

/-- White space is part of what it stands in front of. -/
lemma completes_blank (cs : List Char) (hc : Text.isBlank c = true) :
    (opening.Completes cs → opening.Completes (c::cs)) ∧
      (signed.Completes cs → signed.Completes (c::cs)) ∧
        (closed.Completes cs → closed.Completes (c::cs)) := by
  let cons (b : Blanks) : Blanks := ⟨c::b.chars,by simpa using ⟨hc,b.isBlank⟩⟩
  refine ⟨?_,?_,?_⟩
  · rintro ⟨w,rfl⟩
    exact ⟨{ w with before := cons w.before },rfl⟩
  · rintro ⟨behind,body,rest,rfl⟩
    exact ⟨cons behind,body,rest,rfl⟩
  · rintro ⟨rest,rfl⟩
    cases rest with
    | finish after => exact ⟨.finish (cons after),rfl⟩
    | more before sign behind body rest => exact ⟨.more (cons before) sign behind body rest,rfl⟩

/-- A sign starts a term, the first one or a further one. -/
lemma completes_sign (s : Sign) (h : signed.Completes cs) :
    opening.Completes (s.char::cs) ∧ closed.Completes (s.char::cs) := by
  obtain ⟨behind,body,rest,rfl⟩ := h
  exact ⟨⟨⟨.none,some (s,behind),body,rest⟩,rfl⟩,⟨.more .none s behind body rest,rfl⟩⟩

lemma completes_digit (cs : List Char) (hc : c.isDigit = true) :
    (counting.Completes cs → counting.Completes (c::cs)) ∧
      (indexed.Completes cs → indexed.Completes (c::cs)) := by
  refine ⟨?_,?_⟩
  · rintro ⟨body,rest,rfl⟩
    refine ⟨{ body with digits := c::body.digits, digits_isDigit := ?_ },rest,rfl⟩
    simpa using ⟨hc,body.digits_isDigit⟩
  · rintro ⟨index,rest,hi,rfl⟩
    exact ⟨c::index,rest,by simpa using ⟨hc,hi⟩,rfl⟩

/-- A letter starts a name or goes on with it. -/
lemma completes_letter (hc : c.isAlpha = true) (h : lettered.Completes cs) :
    counting.Completes (c::cs) ∧ lettered.Completes (c::cs) := by
  obtain ⟨letters,index,rest,hl,hi,rfl⟩ := h
  have hcl : ∀ d ∈ c::letters, d.isAlpha = true := by simpa using ⟨hc,hl⟩
  refine ⟨⟨⟨[],c::letters,index,by simp,by simp,hcl,hi⟩,rest,?_⟩,c::letters,index,rest,hcl,hi,rfl⟩
  simp [Body.text,Body.name]

lemma completes_cons {st st' : Stage} (h : st.next (charKind c) = some st')
    (hcs : st'.Completes cs) : st.Completes (c::cs) := by
  cases hk : charKind c with
  | blank =>
    obtain ⟨hopening,hsigned,hclosed⟩ := completes_blank cs (charKind_eq_blank.mp hk)
    rw [hk] at h
    cases st <;> cases h
    case opening.refl => exact hopening hcs
    case signed.refl => exact hsigned hcs
    case lettered.refl => exact lettered_completes (indexed_completes (hclosed hcs))
    case indexed.refl => exact indexed_completes (hclosed hcs)
    case closed.refl => exact hclosed hcs
  | sign s =>
    obtain rfl := charKind_eq_sign.mp hk
    rw [hk] at h
    cases st <;> cases h
    case opening.refl => exact (completes_sign s hcs).1
    case lettered.refl => exact lettered_completes (indexed_completes (completes_sign s hcs).2)
    case indexed.refl => exact indexed_completes (completes_sign s hcs).2
    case closed.refl => exact (completes_sign s hcs).2
  | digit =>
    obtain ⟨hcounting,hindexed⟩ := completes_digit cs (charKind_eq_digit.mp hk)
    rw [hk] at h
    cases st <;> cases h
    case opening.refl => exact opening_completes (signed_completes (hcounting hcs))
    case signed.refl => exact signed_completes (hcounting hcs)
    case counting.refl => exact hcounting hcs
    case lettered.refl => exact lettered_completes (hindexed hcs)
    case indexed.refl => exact hindexed hcs
  | letter =>
    have hletter := charKind_eq_letter.mp hk
    rw [hk] at h
    cases st <;> cases h
    case opening.refl => exact opening_completes (signed_completes (completes_letter hletter hcs).1)
    case signed.refl => exact signed_completes (completes_letter hletter hcs).1
    case counting.refl => exact (completes_letter hletter hcs).1
    case lettered.refl => exact (completes_letter hletter hcs).2
  | other =>
    rw [hk] at h
    cases st <;> cases h

theorem completes_of_stuckAt?_eq_none {st : Stage} (h : st.stuckAt? cs = none) :
    st.Completes cs := by
  induction cs generalizing st with
  | nil =>
    have hclosed : closed.Completes [] := ⟨.finish .none,rfl⟩
    rw [stuckAt?] at h
    cases st <;> cases h
    case lettered.refl => exact lettered_completes (indexed_completes hclosed)
    case indexed.refl => exact indexed_completes hclosed
    case closed.refl => exact hclosed
  | cons c cs ih =>
    obtain ⟨st',hn,h⟩ := stuckAt?_cons_eq_none.mp h
    exact completes_cons hn (ih h)

end Stage

/-- Parsing fails exactly for a text that gets stuck. -/
lemma parse_of_stuckAt? {source : String} {rest : List Char}
    (h : Stage.opening.stuckAt? source.toList = some rest) : parse source =
      .error (.invalidAt source (Text.size source.toList-Text.size (reported rest))) :=
  termsFrom_of_stuckAt? (p := .opening) (by simp) trivial h

/-- The other texts are accepted. -/
lemma accepts_iff {source : String} :
    (∃ terms, parse source = .ok terms) ↔ Stage.opening.stuckAt? source.toList = none := by
  constructor
  · rintro ⟨terms,h⟩
    by_contra hs
    obtain ⟨rest,hs⟩ := Option.ne_none_iff_exists'.mp hs
    rw [parse_of_stuckAt? hs] at h
    contradiction
  · intro h
    obtain ⟨w,hw⟩ := Stage.completes_of_stuckAt?_eq_none h
    exact ⟨w.terms,parse_written hw⟩

lemma exists_written_of_parse {source : String} {terms : List Term}
    (h : parse source = .ok terms) : ∃ w : Written, w.text = source.toList :=
  Stage.completes_of_stuckAt?_eq_none (accepts_iff.mp ⟨terms,h⟩)

/-- A text is accepted exactly if it is a written expression. The terms are then the ones that its
layout fixes, and each stands in the text where it says. -/
theorem parse_eq_ok_iff_written (source : String) (terms : List Term) :
    (parse source = .ok terms ↔ ∃ w : Written, w.text = source.toList ∧ w.terms = terms) ∧
      (parse source = .ok terms → ∀ t ∈ terms, t.StandsIn source.toList) := by
  have hwritten : parse source = .ok terms →
      ∃ w : Written, w.text = source.toList ∧ w.terms = terms := by
    intro h
    obtain ⟨w,hw⟩ := exists_written_of_parse h
    rw [parse_written hw] at h
    exact ⟨w,hw,Except.ok.inj h⟩
  refine ⟨⟨hwritten,?_⟩,fun h => ?_⟩
  · rintro ⟨w,hw,rfl⟩
    exact parse_written hw
  · obtain ⟨w,hw,rfl⟩ := hwritten h
    exact hw ▸ w.terms_standsIn

end Formula

end LinProg
