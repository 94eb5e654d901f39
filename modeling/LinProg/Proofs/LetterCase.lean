import LinProg.Formula.Meaning
import LinProg.Proofs.Lexemes
import LinProg.Proofs.RegistryOrder

/-!
The case of letters in the text of an expression. Every step of reading does the same for a text in
lower case, apart from the letters of names and of errors, so two texts that differ in the case of
letters only are read alike.
-/
namespace LinProg

namespace Text

lemma toLower_eq_or (c : Char) : c.toLower = c ∨
    c.isAlpha = true ∧ c.toLower.isAlpha = true ∧ c.toLower.toLower = c.toLower := by
  by_cases h : c.val ≥ 'A'.val ∧ c.val ≤ 'Z'.val
  · have hupper : 65 ≤ c.toNat ∧ c.toNat ≤ 90 :=
      ⟨UInt32.le_iff_toNat_le.mp h.1,UInt32.le_iff_toNat_le.mp h.2⟩
    have hval : c.toLower.val = c.val+('a'.val - 'A'.val) := congrArg Char.val (dif_pos h)
    have hlower : c.toLower.toNat = c.toNat+32 := by
      change c.toLower.val.toNat = c.val.toNat+32
      have hadd := UInt32.toNat_add c.val ('a'.val - 'A'.val)
      have hdiff : ('a'.val - 'A'.val).toNat = 32 := by decide
      have hlt : c.val.toNat ≤ 90 := hupper.2
      rw [hval,hadd,hdiff,Nat.mod_eq_of_lt (by omega)]
    refine .inr ⟨Formula.isAlpha_iff.mpr (by omega),Formula.isAlpha_iff.mpr (by omega),?_⟩
    refine dif_neg fun hagain => ?_
    have hle : c.toLower.toNat ≤ 90 := UInt32.le_iff_toNat_le.mp hagain.2
    omega
  · exact .inl (dif_neg h)

@[simp] lemma toLower_toLower (c : Char) : c.toLower.toLower = c.toLower := by
  rcases toLower_eq_or c with h | ⟨-,-,h⟩
  · rw [h,h]
  · exact h

/-- Lower case letters are letters, and other characters stay what they are. -/
@[simp] lemma charKind_toLower (c : Char) :
    Formula.charKind c.toLower = Formula.charKind c := by
  rcases toLower_eq_or c with h | ⟨h,hlower,-⟩
  · rw [h]
  · rw [Formula.charKind_of_isAlpha h,Formula.charKind_of_isAlpha hlower]

lemma utf8Size_of_isAlpha {c : Char} (h : c.isAlpha = true) : c.utf8Size = 1 := by
  rw [Formula.isAlpha_iff] at h
  refine if_pos ?_
  rw [UInt32.le_iff_toNat_le]
  change c.toNat ≤ 127
  omega

@[simp] lemma utf8Size_toLower (c : Char) : c.toLower.utf8Size = c.utf8Size := by
  rcases toLower_eq_or c with h | ⟨h,hlower,-⟩
  · rw [h]
  · rw [utf8Size_of_isAlpha h,utf8Size_of_isAlpha hlower]

@[simp] lemma isBlank_toLower (c : Char) : isBlank c.toLower = isBlank c := by
  rw [Bool.eq_iff_iff,← Formula.charKind_eq_blank,charKind_toLower,Formula.charKind_eq_blank]

@[simp] lemma isDigit_toLower (c : Char) : c.toLower.isDigit = c.isDigit := by
  rw [Bool.eq_iff_iff,← Formula.charKind_eq_digit,charKind_toLower,Formula.charKind_eq_digit]

@[simp] lemma isAlpha_toLower (c : Char) : c.toLower.isAlpha = c.isAlpha := by
  rw [Bool.eq_iff_iff,← Formula.charKind_eq_letter,charKind_toLower,Formula.charKind_eq_letter]

lemma toLower_eq_char {c : Char} (s : Formula.Sign) : c.toLower = s.char ↔ c = s.char := by
  rw [← Formula.charKind_eq_sign,charKind_toLower,Formula.charKind_eq_sign]

@[simp] lemma size_map_toLower (cs : List Char) : size (cs.map Char.toLower) = size cs := by
  induction cs with
  | nil => rfl
  | cons c cs ih => simp [ih]

@[simp] lemma charAt?_map_toLower (cs : List Char) (offset : ℕ) :
    charAt? (cs.map Char.toLower) offset = (charAt? cs offset).map Char.toLower := by
  induction cs generalizing offset with
  | nil => rfl
  | cons c cs ih =>
    rw [List.map_cons,charAt?,charAt?,utf8Size_toLower,ih]
    split <;> rfl

@[simp] lemma toList_toLower (text : String) : text.toLower.toList = foldCase text :=
  String.toList_map

lemma toLower_ofList (cs : List Char) :
    (String.ofList cs).toLower = String.ofList (cs.map Char.toLower) := by
  rw [← String.toList_inj,toList_toLower,foldCase,String.toList_ofList,String.toList_ofList]

@[simp] lemma foldCase_toLower (text : String) : foldCase text.toLower = foldCase text := by
  rw [foldCase,toList_toLower,foldCase,List.map_map]
  exact List.map_congr_left fun c _ => toLower_toLower c

end Text

namespace Formula

/-- The error for the text in lower case: the letters that it quotes are in lower case, and all else
is as it was. -/
def ParseError.lower : ParseError → ParseError
  | .incomplete offset text => .incomplete offset text.toLower
  | .invalidCharacter found offset text => .invalidCharacter found.toLower offset text.toLower
  | .undeclaredVariable name span => .undeclaredVariable name.toLower span
  | .coefficientOverflow digits span => .coefficientOverflow digits span

/-- The token with its letters in lower case; digits have no case. -/
def Token.lower (t : Token) : Token :=
  if t.kind = .number then t else { t with text := t.text.map Char.toLower }

def Term.lower (t : Term) : Term := { t with name := t.name.toLower }

def Step.lower : Step → Step
  | .term t => .term t.lower
  | .next p => .next p
  | .done => .done
  | .invalid offset => .invalid offset

section Tokens
variable {c : Char} {cs : List Char}

/-- The first token takes as much of a text in lower case. -/
lemma first_toLower (c : Char) (rest : List Char) :
    Lexeme.first c.toLower (rest.map Char.toLower) =
      ⟨(Lexeme.first c rest).kind,(Lexeme.first c rest).text.map Char.toLower,
        (Lexeme.first c rest).rest.map Char.toLower⟩ := by
  have hdigit : Char.isDigit ∘ Char.toLower = Char.isDigit := funext Text.isDigit_toLower
  have halpha : Char.isAlpha ∘ Char.toLower = Char.isAlpha := funext Text.isAlpha_toLower
  have hplus : c.toLower = '+' ↔ c = '+' := Text.toLower_eq_char .plus
  have hminus : c.toLower = '-' ↔ c = '-' := Text.toLower_eq_char .minus
  simp only [Lexeme.first,hplus,hminus,Text.isDigit_toLower,Text.isAlpha_toLower,
    List.takeWhile_map,List.dropWhile_map,hdigit,halpha]
  split_ifs <;> simp

lemma map_toLower_of_number {rest : List Char} (h : (Lexeme.first c rest).kind = .number) :
    (Lexeme.first c rest).text.map Char.toLower = (Lexeme.first c rest).text := by
  unfold Lexeme.first at h ⊢
  split_ifs at h ⊢ with _ _ hdigit
  have hdigits : ∀ d ∈ c::rest.takeWhile Char.isDigit, d.isDigit = true :=
    List.forall_mem_cons.mpr ⟨hdigit,(takeWhile_spec _ _).1⟩
  exact (List.map_congr_left fun d hd => Text.toLower_of_isDigit (hdigits d hd)).trans
    (List.map_id' _)

lemma tokensFrom_toLower (offset : ℕ) (cs : List Char) :
    tokensFrom offset (cs.map Char.toLower) = (tokensFrom offset cs).map Token.lower := by
  induction hn : cs.length using Nat.strong_induction_on generalizing offset cs with
  | _ n ih =>
  subst hn
  cases cs with
  | nil => simp [Token.lower]
  | cons c cs =>
    rw [List.map_cons]
    by_cases hblank : Text.isBlank c = true
    · rw [tokensFrom,if_pos (by simpa using hblank),tokensFrom,if_pos hblank,Text.utf8Size_toLower]
      exact ih cs.length (by simp) _ _ rfl
    · have hblank : Text.isBlank c = false := by simpa using hblank
      rw [tokensFrom_cons (by simpa using hblank),tokensFrom_cons hblank,first_toLower]
      dsimp only
      rw [Text.size_map_toLower,ih _ (Nat.lt_succ_of_le (Lexeme.length_rest_le c cs)) _ _ rfl,
        List.map_cons,Token.lower]
      split
      case isTrue h => rw [map_toLower_of_number h]
      case isFalse => rfl

theorem tokens_toLower (source : String) :
    tokens source.toLower = (tokens source).map Token.lower := by
  rw [tokens,Text.toList_toLower]
  exact tokensFrom_toLower 0 source.toList

end Tokens

section Terms

/-- The case of letters has no influence on what a token does. -/
lemma step_lower (p : Progress) (t : Token) : step p t.lower = (step p t).lower := by
  have hclose : ∀ p : Progress, t.kind = .name → p.close t.lower = (p.close t).lower := by
    intro p hname
    simp [Progress.close,Token.lower,hname,Term.lower,Text.toLower_ofList]
  have hspan : t.lower.span = t.span := by
    unfold Token.lower
    split <;> rfl
  have hkind : t.lower.kind = t.kind := by
    unfold Token.lower
    split <;> rfl
  have htext : t.kind = .number → t.lower.text = t.text := fun h => by rw [Token.lower,if_pos h]
  cases p with
  | opening | signed | closed =>
    cases hk : t.kind <;> simp [step,hkind,hspan,htext,hclose,hk,Step.lower]
  | counted sign? coefficient =>
    by_cases hstop : t.span.start = coefficient.span.stop <;> cases hk : t.kind <;>
      simp [step,hkind,hspan,hclose,hk,hstop,Step.lower]

lemma invalidAt_toLower (source : String) (offset : ℕ) :
    ParseError.invalidAt source.toLower offset = (ParseError.invalidAt source offset).lower := by
  rw [ParseError.invalidAt,Text.toList_toLower,Text.foldCase,Text.charAt?_map_toLower,
    ParseError.invalidAt]
  cases Text.charAt? source.toList offset <;> rfl

lemma termsFrom_toLower (source : String) (p : Progress) (ts : List Token) :
    termsFrom source.toLower p (ts.map Token.lower) =
      ((termsFrom source p ts).map (List.map Term.lower)).mapError ParseError.lower := by
  induction ts generalizing p with
  | nil =>
    rw [List.map_nil,termsFrom,Text.toList_toLower,Text.foldCase,Text.size_map_toLower]
    rfl
  | cons t ts ih =>
    rw [List.map_cons,termsFrom,termsFrom,step_lower]
    cases step p t with
    | next p => exact ih p
    | term term =>
      simp only [Step.lower,ih]
      cases termsFrom source .closed ts <;> rfl
    | done => rfl
    | invalid offset =>
      simp only [Step.lower,invalidAt_toLower]
      rfl

theorem parse_toLower (source : String) : parse source.toLower =
    ((parse source).map (List.map Term.lower)).mapError ParseError.lower := by
  rw [parse,tokens_toLower,termsFrom_toLower]
  rfl

end Terms

section Meaning
variable {K : Type} [Scalar K] (r : Registry)

lemma find?_toLower (name : String) : r.find? name.toLower = r.find? name := by
  simp [Registry.find?,Variable.isNamed,Text.sameLetters]

/-- Digits have no case. -/
lemma size_lower (t : Term) : t.lower.size = t.size.mapError ParseError.lower := by
  have hcoefficient : t.lower.coefficient? = t.coefficient? := rfl
  unfold Term.size
  rw [hcoefficient]
  cases t.coefficient? with
  | none => rfl
  | some c => cases hvalue : c.value? <;> simp [hvalue,Except.mapError,ParseError.lower]

lemma addTerm_lower (e : Equation K) (t : Term) :
    addTerm r e t.lower = (addTerm r e t).mapError ParseError.lower := by
  have hfind : r.find? t.lower.name = r.find? t.name := find?_toLower r t.name
  unfold addTerm
  rw [hfind,size_lower]
  cases r.find? t.name with
  | none => rfl
  | some v => cases t.size <;> rfl

lemma meaning_lower (terms : List Term) : (meaning (terms.map Term.lower) r : Except _ (Equation K)) =
    (meaning terms r).mapError ParseError.lower := by
  unfold meaning
  generalize (Equation.zeros r : Equation K) = e
  induction terms generalizing e with
  | nil => rfl
  | cons t terms ih =>
    rw [List.map_cons,List.foldlM_cons,List.foldlM_cons,addTerm_lower]
    cases addTerm r e t with
    | error m => rfl
    | ok e' => exact ih e'

/-- A text in lower case is read like the text itself, up to the letters that an error quotes. -/
theorem read_toLower (source : String) : (read source.toLower r : Except ParseError (Equation K)) =
    (read source r).mapError ParseError.lower := by
  rw [read,parse_toLower,read]
  cases parse source with
  | error m => rfl
  | ok terms => exact meaning_lower r terms

/-- Two texts that differ in the case of letters only are read to the same expression, or to errors
that differ in the case of the quoted letters only. -/
theorem read_ignores_case {a b : String} (h : Text.foldCase a = Text.foldCase b) :
    (read a r : Except ParseError (Equation K)).mapError ParseError.lower =
      (read b r).mapError ParseError.lower := by
  have hlower : a.toLower = b.toLower := by
    rw [← String.toList_inj,Text.toList_toLower,Text.toList_toLower,h]
  rw [← read_toLower,← read_toLower,hlower]

/-- A name that is not declared is quoted as it is written. One that is declared counts for its
variable in either case. -/
theorem read_ignores_case_mixed :
    Text.foldCase "2x1 + X1 - y2" = Text.foldCase "2X1 + x1 - Y2" ∧
      (read "2x1 + X1 - y2" (.numbered "X" 2) : Except ParseError (Equation Float)) =
        .error (.undeclaredVariable "y2" ⟨11,13⟩) ∧
      (read "2X1 + x1 - Y2" (.numbered "X" 2) : Except ParseError (Equation Float)) =
        .error (.undeclaredVariable "Y2" ⟨11,13⟩) ∧
      (read "2x1 + X1 - y2" (.numbered "X" 2) : Except ParseError (Equation Float)).mapError
          ParseError.lower =
        (read "2X1 + x1 - Y2" (.numbered "X" 2)).mapError ParseError.lower ∧
    Text.foldCase "2x1 + X1 - x2" = Text.foldCase "2X1 + x1 - X2" ∧
      (read "2x1 + X1 - x2" (.numbered "X" 2) : Except ParseError (Equation Float)) =
        .ok (.ofList [(1,3),(2,-1)]) ∧
      (read "2X1 + x1 - X2" (.numbered "X" 2) : Except ParseError (Equation Float)) =
        .ok (.ofList [(1,3),(2,-1)]) :=
  ⟨by decide,Except.failure?_eq_some.mp (by decide +kernel),
    Except.failure?_eq_some.mp (by decide +kernel),read_ignores_case _ (by decide),by decide,
    Except.toOption_eq_some.mp (by decide +kernel),Except.toOption_eq_some.mp (by decide +kernel)⟩

end Meaning

end Formula

end LinProg
