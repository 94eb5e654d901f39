import LinProg.Proofs.Lexemes

/-!
The tokens of a written expression spell the terms that its layout fixes.
-/
namespace LinProg

namespace Formula

/-- What starts a tail cannot be part of the term in front of it. -/
lemma Tail.head_text (r : Tail) :
    ∀ c ∈ r.text.head?, c.isDigit = false ∧ c.isAlpha = false := by
  have hkind : ∀ c : Char, charKind c = .blank ∨ (∃ s, charKind c = .sign s) →
      c.isDigit = false ∧ c.isAlpha = false := by
    intro c hc
    rw [Bool.eq_false_iff,Bool.eq_false_iff,ne_eq,ne_eq,← charKind_eq_digit,← charKind_eq_letter]
    rcases hc with hc | ⟨s,hc⟩ <;> simp [hc]
  intro c hc
  apply hkind
  cases r with
  | finish after => exact .inl (charKind_of_isBlank (after.isBlank c (List.mem_of_mem_head? hc)))
  | more before sign behind body rest =>
    rw [text] at hc
    cases hb : before.chars with
    | nil =>
      rw [hb] at hc
      obtain rfl : sign.char = c := by simpa using hc
      exact .inr ⟨sign,charKind_char sign⟩
    | cons b bs =>
      rw [hb] at hc
      obtain rfl : b = c := by simpa using hc
      exact .inl (charKind_of_isBlank (before.isBlank b (by simp [hb])))

section Spelling
variable {source : String} {offset : ℕ} {cs : List Char}

lemma step_sign {p : Progress} (hp : p = .opening ∨ p = .closed) (s : Sign) (span : Span)
    (text : List Char) : step p ⟨(CharKind.sign s).token,span,text⟩ = .next (.signed s span) := by
  rcases hp with rfl | rfl <;> cases s <;> rfl

lemma step_number {p : Progress} (hp : p = .opening ∨ ∃ s span, p = .signed s span)
    (span : Span) (ds : List Char) : step p ⟨.number,span,ds⟩ =
      .next (.counted p.sign? ⟨span,String.ofList ds⟩) := by
  rcases hp with rfl | ⟨s,span,rfl⟩ <;> rfl

lemma step_name {p : Progress} (hp : p = .opening ∨ ∃ s span, p = .signed s span)
    (span : Span) (name : List Char) :
    step p ⟨.name,span,name⟩ = .term (p.close ⟨.name,span,name⟩) := by
  rcases hp with rfl | ⟨s,span,rfl⟩ <;> rfl

/-- The sign, if there is one, stands in front of the digits, and these in front of the name. -/
lemma close_name {p : Progress} {b : Body}
    (hsign : ∀ s ∈ p.sign?, s.2.start ≤ s.2.stop ∧ s.2.stop ≤ offset)
    (hdigits : p.coefficient? = if b.digits = [] then none else
      some ⟨⟨offset,offset+Text.size b.digits⟩,String.ofList b.digits⟩) :
    p.close ⟨.name,⟨offset+Text.size b.digits,offset+Text.size b.digits+Text.size b.name⟩,b.name⟩ =
      b.term (p.sign?.map fun s => (s.1,s.2.start)) offset := by
  unfold Progress.close
  rw [hdigits]
  cases hs : p.sign? with
  | none =>
    split
    case isTrue hd => simp [Body.term,hd,Span.merge]
    case isFalse hd => simp [Body.term,hd,Span.merge,add_assoc]
  | some s =>
    obtain ⟨hle,hstop⟩ := hsign s hs
    simp [Body.term,Span.merge]
    omega

/-- A body ends the term that it is read into. -/
lemma termsFrom_body {p : Progress} (hp : p = .opening ∨ ∃ s span, p = .signed s span) (b : Body)
    (hsign : ∀ s ∈ p.sign?, s.2.start ≤ s.2.stop ∧ s.2.stop ≤ offset)
    (hcs : ∀ c ∈ cs.head?, c.isDigit = false ∧ c.isAlpha = false) :
    termsFrom source p (tokensFrom offset (b.text ++ cs)) =
      (termsFrom source .closed (tokensFrom (offset+Text.size b.text) cs)).map
        (b.term (p.sign?.map fun s => (s.1,s.2.start)) offset :: ·) := by
  have hname (offset : ℕ) := @tokensFrom_name offset cs b
    (fun c hc => (hcs c hc).1) fun _ c hc => (hcs c hc).2
  by_cases hd : b.digits = []
  · have hterm := close_name (b := b) hsign (by rcases hp with rfl | ⟨s,span,rfl⟩ <;> simp [hd,
      Progress.coefficient?])
    rw [hd,Text.size_nil,add_zero] at hterm
    rw [Body.text,hd,List.nil_append,hname,termsFrom,step_name hp,hterm]
  · have hdigits : ∀ c ∈ (b.name ++ cs).head?, c.isDigit = false := by
      obtain ⟨l,ls,hls⟩ := List.exists_cons_of_ne_nil b.letters_ne_nil
      intro c hc
      obtain rfl : l = c := by simpa [Body.name,hls] using hc
      have := charKind_of_isAlpha (b.letters_isAlpha l (by simp [hls]))
      rw [Bool.eq_false_iff,ne_eq,← charKind_eq_digit,this]
      simp
    have hterm := close_name (p := .counted p.sign? ⟨⟨offset,offset+Text.size b.digits⟩,
      String.ofList b.digits⟩) (b := b) hsign (by rw [if_neg hd]; rfl)
    rw [Body.text,List.append_assoc,tokensFrom_digits hd b.digits_isDigit hdigits,termsFrom,
      step_number hp,hname]
    dsimp only
    rw [termsFrom,step,if_pos rfl,hterm,Text.size_append,add_assoc]
    rfl

/-- A tail spells its terms behind a term. -/
lemma termsFrom_tail (r : Tail) : termsFrom source .closed (tokensFrom offset r.text) =
    .ok (r.terms offset) := by
  induction r generalizing offset with
  | finish after =>
    have := @tokensFrom_blanks [] after.chars after.isBlank offset
    rw [List.append_nil] at this
    rw [Tail.text,this,tokensFrom_nil]
    rfl
  | more before sign behind body rest ih =>
    rw [Tail.text,tokensFrom_blanks before.isBlank,tokensFrom_sign,termsFrom,step_sign (.inr rfl)]
    dsimp only
    rw [tokensFrom_blanks behind.isBlank,termsFrom_body (.inr ⟨sign,_,rfl⟩) body _ rest.head_text,ih]
    · rfl
    · intro s hs
      obtain rfl := Option.some.inj hs
      dsimp only
      omega

/-- A written expression parses to its terms. -/
theorem parse_written {w : Written} (h : w.text = source.toList) : parse source = .ok w.terms := by
  rw [parse,tokens,← h,Written.text,tokensFrom_blanks w.before.isBlank]
  cases hs : w.sign? with
  | none =>
    have htext : w.signText = [] := by rw [Written.signText,hs]
    rw [htext,List.nil_append,termsFrom_body (.inl rfl) w.body (by simp [Progress.sign?])
      w.rest.head_text,termsFrom_tail]
    simp [Written.terms,hs,htext,Progress.sign?,Except.map]
  | some s =>
    obtain ⟨sign,behind⟩ := s
    have htext : w.signText = sign.char::behind.chars := by rw [Written.signText,hs]
    rw [htext,List.cons_append,tokensFrom_sign,termsFrom,step_sign (.inl rfl)]
    dsimp only
    rw [tokensFrom_blanks behind.isBlank,termsFrom_body (.inr ⟨sign,_,rfl⟩) w.body _
      w.rest.head_text,termsFrom_tail]
    · simp [Written.terms,hs,htext,Progress.sign?,Except.map,add_assoc]
    · intro s hs
      obtain rfl := Option.some.inj hs
      dsimp only
      omega

end Spelling

end Formula

end LinProg
