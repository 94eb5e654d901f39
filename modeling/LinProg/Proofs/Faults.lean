import LinProg.Proofs.Stages

/-!
Where a text is found to be no expression. The tokens are read in step with the stages, so reading
stops where the text gets stuck. The one exception is white space behind the digits of a
coefficient: it is noticed only if a name follows.
-/
namespace LinProg

namespace Formula

/-- What is left of the text where the error is reported, if the text gets stuck at `rest`. -/
def reported (rest : List Char) : List Char :=
  if (rest.dropWhile Text.isBlank).head?.any Char.isAlpha then rest
  else rest.dropWhile Text.isBlank

lemma reported_of_head {c : Char} (h : Text.isBlank c = false) (cs : List Char) :
    reported (c::cs) = c::cs := by
  rw [reported,List.dropWhile_cons_of_neg (by simp [h]),ite_self]

lemma exists_run (p : Char → Bool) (cs : List Char) : ∃ run rest, cs = run ++ rest ∧
    (∀ c ∈ run, p c = true) ∧ ∀ c ∈ rest.head?, p c = false :=
  ⟨_,_,List.takeWhile_append_dropWhile.symm,takeWhile_spec p cs⟩

namespace Progress

def stage : Progress → Stage
  | opening => .opening
  | signed .. => .signed
  | counted .. => .counting
  | closed => .closed

/-- Digits of a coefficient have been read up to here, and no more of them follow. -/
def Ready (offset : ℕ) (cs : List Char) : Progress → Prop
  | counted _ coefficient =>
    coefficient.span.stop = offset ∧ ∀ c ∈ cs.head?, c.isDigit = false
  | _ => True

end Progress

section Simulation
variable {source : String} {p : Progress} {offset : ℕ} {cs rest : List Char}

/-- A token that no stage follows on is refused where it starts. -/
lemma step_invalid {kind : CharKind} (hk : kind ≠ .blank) (h : p.stage.next kind = none) (stop : ℕ)
    (text : List Char) : step p ⟨kind.token,⟨offset,stop⟩,text⟩ = .invalid offset := by
  cases p <;> cases kind <;> simp_all [Progress.stage,Stage.next,CharKind.token,step]
  all_goals rename_i s
  all_goals cases s <;> rfl

lemma termsFrom_invalid {c : Char} (hc : Text.isBlank c = false)
    (h : p.stage.next (charKind c) = none) :
    termsFrom source p (tokensFrom offset (c::cs)) = .error (.invalidAt source offset) := by
  have hk : charKind c ≠ .blank := by
    rw [ne_eq,charKind_eq_blank,hc]
    simp
  rw [tokensFrom_cons hc,kind_first hc,termsFrom,step_invalid hk h]

/-- Behind digits and white space an error is reported in any case, but at the white space only if a
name follows. -/
lemma termsFrom_gap {sign? : Option (Sign × Span)} {coefficient : Coefficient}
    (hstop : coefficient.span.stop = offset) (hsize : offset+Text.size cs = Text.size source.toList)
    (hblank : ∃ c ∈ cs.head?, Text.isBlank c = true) :
    termsFrom source (.counted sign? coefficient) (tokensFrom offset cs) =
      .error (.invalidAt source (Text.size source.toList-Text.size (reported cs))) := by
  obtain ⟨blanks,rest,rfl,hb,hrest⟩ := exists_run Text.isBlank cs
  have hdrop := (takeWhile_run hb hrest).2
  have hpos : 0 < Text.size blanks := by
    obtain ⟨c,hc,hcb⟩ := hblank
    cases blanks with
    | nil => simp [hrest c hc] at hcb
    | cons b bs =>
      have := b.utf8Size_pos
      rw [Text.size_cons]
      omega
  rw [Text.size_append] at hsize
  rw [tokensFrom_blanks hb,reported,hdrop]
  cases rest with
  | nil =>
    have hend : offset+Text.size blanks = Text.size source.toList-Text.size [] := by
      rw [Text.size_nil] at hsize ⊢
      omega
    rw [tokensFrom_nil,termsFrom]
    simp only [List.head?_nil,Option.any_none,Bool.false_eq_true,if_false,← hend]
    rfl
  | cons c rest =>
    have hc := hrest c rfl
    by_cases hletter : c.isAlpha = true
    · have hwhere : Text.size source.toList-Text.size (blanks ++ c::rest) = offset := by
        rw [Text.size_append]
        omega
      rw [tokensFrom_cons hc,kind_first hc,charKind_of_isAlpha hletter,CharKind.token,termsFrom,step,
        if_neg (by simp only; omega)]
      simp only [List.head?_cons,Option.any_some,hletter,if_true,hwhere,hstop]
    · have hwhere : Text.size source.toList-Text.size (c::rest) = offset+Text.size blanks := by
        omega
      have hk : charKind c ≠ .blank := by
        rw [ne_eq,charKind_eq_blank,hc]
        simp
      have hl : charKind c ≠ .letter := by rwa [ne_eq,charKind_eq_letter]
      have hstep : ∀ stop text, step (.counted sign? coefficient)
          ⟨(charKind c).token,⟨offset+Text.size blanks,stop⟩,text⟩ =
            .invalid (offset+Text.size blanks) := by
        intro stop text
        cases hkind : charKind c <;> simp_all [CharKind.token,step]
        rename_i s
        cases s <;> rfl
      rw [tokensFrom_cons hc,kind_first hc,termsFrom,hstep]
      simp only [List.head?_cons,Option.any_some,hletter,Bool.false_eq_true,if_false,hwhere]

/-- A name in front of a text that is not part of it. -/
lemma exists_name {c : Char} (hc : c.isAlpha = true) (cs : List Char) : ∃ (b : Body)
    (rest : List Char), c::cs = b.name ++ rest ∧ (∀ c ∈ rest.head?, c.isDigit = false) ∧
      (b.index = [] → ∀ c ∈ rest.head?, c.isAlpha = false) ∧ rest.length ≤ cs.length ∧
      Stage.lettered.stuckAt? cs = Stage.closed.stuckAt? rest := by
  obtain ⟨letters,more,rfl,hletters,hmore⟩ := exists_run Char.isAlpha cs
  obtain ⟨index,rest,rfl,hindex,hrest⟩ := exists_run Char.isDigit more
  have hlettered : ∀ c ∈ letters, charKind c = .letter :=
    fun c hc => charKind_of_isAlpha (hletters c hc)
  have hdigit : ∀ c ∈ rest.head?, charKind c ≠ .digit := by
    intro c hc
    rw [ne_eq,charKind_eq_digit,hrest c hc]
    simp
  refine ⟨⟨[],c::letters,index,by simp,by simp,by simpa using ⟨hc,hletters⟩,hindex⟩,rest,
    by simp [Body.name],hrest,?_,by simp; omega,?_⟩
  · rintro rfl
    exact hmore
  · rw [Stage.stuckAt?_run rfl hlettered]
    cases index with
    | nil =>
      refine Stage.stuckAt?_name (.inl rfl) hdigit fun _ c hc => ?_
      rw [ne_eq,charKind_eq_letter,hmore c hc]
      simp
    | cons i index =>
      have hkind : ∀ c ∈ i::index, charKind c = .digit := fun c hc => charKind_of_isDigit (hindex c hc)
      have hfirst : Stage.lettered.next (charKind i) = some .indexed := by rw [hkind i (by simp)]; rfl
      rw [List.cons_append,Stage.stuckAt?_of_next hfirst,
        Stage.stuckAt?_run rfl fun c hc => hkind c (by simp [hc])]
      exact Stage.stuckAt?_name (.inr rfl) hdigit (by simp)

/-- Reading goes on behind one token. The text gets stuck where what is left of it does, and what is
wrong with that is what is reported. -/
structure Advances (source : String) (p : Progress) (offset : ℕ) (cs : List Char)
    (q : Progress) (stop : ℕ) (more : List Char) : Prop where
  shorter : more.length < cs.length
  size : stop+Text.size more = offset+Text.size cs
  ready : q.Ready stop more
  stuck : p.stage.stuckAt? cs = q.stage.stuckAt? more
  error : ∀ e, termsFrom source q (tokensFrom stop more) = .error e →
    termsFrom source p (tokensFrom offset cs) = .error e

lemma advances_blank {c : Char} (hc : Text.isBlank c = true) (hp : p.stage ≠ .counting)
    (cs : List Char) : Advances source p offset (c::cs) p (offset+c.utf8Size) cs where
  shorter := by simp
  size := by rw [Text.size_cons,Nat.add_assoc]
  ready := by
    cases p
    case counted => exact absurd rfl hp
    all_goals trivial
  stuck := by
    refine Stage.stuckAt?_of_next ?_
    rw [charKind_of_isBlank hc]
    cases p
    case counted => exact absurd rfl hp
    all_goals rfl
  error e h := by rwa [tokensFrom,if_pos hc]

lemma advances_sign {s : Sign} (hp : p = .opening ∨ p = .closed) (cs : List Char) :
    Advances source p offset (s.char::cs) (.signed s ⟨offset,offset+1⟩) (offset+1) cs where
  shorter := by simp
  size := by rw [Text.size_cons,Sign.utf8Size_char,Nat.add_assoc]
  ready := trivial
  stuck := by
    refine Stage.stuckAt?_of_next ?_
    rw [charKind_char]
    rcases hp with rfl | rfl <;> rfl
  error e h := by rwa [tokensFrom_sign,termsFrom,step_sign hp]

lemma exists_advances_digit {c : Char} (hc : c.isDigit = true)
    (hp : p = .opening ∨ ∃ s span, p = .signed s span) (cs : List Char) :
    ∃ q stop more, Advances source p offset (c::cs) q stop more := by
  obtain ⟨digits,more,rfl,hd,hmore⟩ := exists_run Char.isDigit cs
  have hds : ∀ d ∈ c::digits, d.isDigit = true := by simpa using ⟨hc,hd⟩
  have hnext : p.stage.next (charKind c) = some .counting := by
    rw [charKind_of_isDigit hc]
    rcases hp with rfl | ⟨s,span,rfl⟩ <;> rfl
  refine ⟨.counted p.sign? ⟨⟨offset,offset+Text.size (c::digits)⟩,String.ofList (c::digits)⟩,
    offset+Text.size (c::digits),more,?_⟩
  exact {
    shorter := by simp
    size := by rw [← List.cons_append,Text.size_append,Nat.add_assoc]
    ready := ⟨rfl,hmore⟩
    stuck := (Stage.stuckAt?_of_next hnext).trans
      (Stage.stuckAt?_run rfl fun d hd' => charKind_of_isDigit (hd d hd'))
    error := fun e h => by
      rwa [← List.cons_append,tokensFrom_digits (by simp) hds hmore,termsFrom,step_number hp] }

/-- A name ends a term, whatever there is of the term in front of it. -/
lemma exists_advances_letter {c : Char} (hc : c.isAlpha = true) (hp : p.Ready offset (c::cs))
    (hclosed : p ≠ .closed) : ∃ q stop more, Advances source p offset (c::cs) q stop more := by
  obtain ⟨b,more,hb,hdigit,halpha,hlength,hstuck⟩ := exists_name hc cs
  have hstep : ∃ term, step p ⟨.name,⟨offset,offset+Text.size b.name⟩,b.name⟩ = .term term := by
    cases p
    case closed => exact absurd rfl hclosed
    case counted => exact ⟨_,if_pos hp.1.symm⟩
    all_goals exact ⟨_,rfl⟩
  have hnext : p.stage.next (charKind c) = some .lettered := by
    rw [charKind_of_isAlpha hc]
    cases p
    case closed => exact absurd rfl hclosed
    all_goals rfl
  obtain ⟨term,hstep⟩ := hstep
  refine ⟨.closed,offset+Text.size b.name,more,?_⟩
  exact {
    shorter := by rw [List.length_cons]; omega
    size := by rw [hb,Text.size_append,Nat.add_assoc]
    ready := trivial
    stuck := (Stage.stuckAt?_of_next hnext).trans hstuck
    error := fun e h => by
      rw [hb,tokensFrom_name hdigit halpha,termsFrom,hstep]
      dsimp only
      rw [h]
      rfl }

/-- A character that a stage follows on starts a token that is read, or is white space. -/
lemma exists_advances {c : Char} {st : Stage} (hp : p.Ready offset (c::cs))
    (hnext : p.stage.next (charKind c) = some st) :
    ∃ q stop more, Advances source p offset (c::cs) q stop more := by
  cases hkind : charKind c with
  | blank =>
    refine ⟨_,_,_,advances_blank (charKind_eq_blank.mp hkind) (fun hp => ?_) cs⟩
    rw [hkind,hp] at hnext
    contradiction
  | sign s =>
    obtain rfl := charKind_eq_sign.mp hkind
    refine ⟨_,_,_,advances_sign ?_ cs⟩
    rw [hkind] at hnext
    cases p <;> cases hnext <;> simp
  | digit =>
    have hdigit := charKind_eq_digit.mp hkind
    refine exists_advances_digit hdigit ?_ cs
    rw [hkind] at hnext
    cases p
    case opening => exact .inl rfl
    case signed s span => exact .inr ⟨s,span,rfl⟩
    case counted => simp [hp.2 c rfl] at hdigit
    case closed => contradiction
  | letter =>
    refine exists_advances_letter (charKind_eq_letter.mp hkind) hp ?_
    rintro rfl
    rw [hkind] at hnext
    contradiction
  | other =>
    rw [hkind] at hnext
    cases p <;> cases hnext

/-- Reading the tokens stops where the text gets stuck. -/
theorem termsFrom_of_stuckAt? (hsize : offset+Text.size cs = Text.size source.toList)
    (hp : p.Ready offset cs) (h : p.stage.stuckAt? cs = some rest) :
    termsFrom source p (tokensFrom offset cs) =
      .error (.invalidAt source (Text.size source.toList-Text.size (reported rest))) := by
  induction hn : cs.length using Nat.strong_induction_on generalizing p offset cs with
  | _ n ih =>
  subst hn
  cases cs with
  | nil =>
    have hend : offset = Text.size source.toList := by simpa using hsize
    rw [Stage.stuckAt?] at h
    split at h
    · contradiction
    · obtain rfl := Option.some.inj h
      rw [tokensFrom_nil,termsFrom]
      cases p
      case closed hends => exact absurd rfl hends
      all_goals simp [step,reported,hend]
  | cons c cs =>
    cases hnext : p.stage.next (charKind c) with
    | some st =>
      obtain ⟨q,stop,more,hadv⟩ : ∃ q stop more, Advances source p offset (c::cs) q stop more :=
        exists_advances hp hnext
      exact hadv.error _ (ih more.length hadv.shorter (hadv.size.trans hsize) hadv.ready
        (hadv.stuck.symm.trans h) rfl)
    | none =>
      rw [Stage.stuckAt?_of_next_eq_none hnext] at h
      obtain rfl := Option.some.inj h
      by_cases hblank : Text.isBlank c = true
      · rw [charKind_of_isBlank hblank] at hnext
        cases p <;> cases hnext
        exact termsFrom_gap hp.1 hsize ⟨c,rfl,hblank⟩
      · have hblank : Text.isBlank c = false := by simpa using hblank
        rw [reported_of_head hblank,termsFrom_invalid hblank hnext,← hsize,Nat.add_sub_cancel]

end Simulation

end Formula

end LinProg
