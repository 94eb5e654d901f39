import LinProg.Proofs.Grammar

/-!
Tokens of a text piece by piece: white space, signs, runs of digits and names each give their token
if the text goes on with a character that cannot be part of it. So the tokens of a written
expression spell its terms.
-/
namespace LinProg

lemma Text.isBlank_iff {c : Char} : isBlank c = true ↔
    ∃ range ∈ blankRanges, range.1 ≤ c.toNat ∧ c.toNat ≤ range.2 := by
  simp [isBlank]

namespace Formula

/-- What an expression can do with a character. -/
inductive CharKind
  | blank
  | sign (s : Sign)
  | digit
  | letter
  | other
  deriving DecidableEq

/-- The kind of a character. The kinds exclude each other, so the order of the tests is free. -/
def charKind (c : Char) : CharKind :=
  if Text.isBlank c then .blank
  else if c = '+' then .sign .plus
  else if c = '-' then .sign .minus
  else if c.isDigit then .digit
  else if c.isAlpha then .letter
  else .other

lemma isDigit_iff {c : Char} : c.isDigit = true ↔ 48 ≤ c.toNat ∧ c.toNat ≤ 57 := by
  simp only [Char.isDigit,Bool.and_eq_true,decide_eq_true_eq,ge_iff_le,UInt32.le_iff_toNat_le]
  rfl

lemma isAlpha_iff {c : Char} :
    c.isAlpha = true ↔ 65 ≤ c.toNat ∧ c.toNat ≤ 90 ∨ 97 ≤ c.toNat ∧ c.toNat ≤ 122 := by
  change (decide (65 ≤ c.val ∧ c.val ≤ 90) || (decide (97 ≤ c.val) && decide (c.val ≤ 122))) =
    true ↔ _
  simp only [Bool.or_eq_true,Bool.and_eq_true,decide_eq_true_eq,UInt32.le_iff_toNat_le]
  rfl

lemma not_isBlank {c : Char} (h : 33 ≤ c.toNat ∧ c.toNat ≤ 126) : Text.isBlank c = false := by
  rw [Bool.eq_false_iff,ne_eq,Text.isBlank_iff]
  rintro ⟨range,hr,hc⟩
  have : ∀ range ∈ Text.blankRanges, range.2 ≤ 32 ∨ 127 ≤ range.1 := by decide
  have := this range hr
  omega

lemma isAlpha_of_isDigit {c : Char} (h : c.isDigit = true) : c.isAlpha = false := by
  rw [isDigit_iff] at h
  rw [Bool.eq_false_iff,ne_eq,isAlpha_iff]
  omega

lemma not_isBlank_of_isDigit {c : Char} (h : c.isDigit = true) : Text.isBlank c = false := by
  rw [isDigit_iff] at h
  exact not_isBlank (by omega)

lemma not_isBlank_of_isAlpha {c : Char} (h : c.isAlpha = true) : Text.isBlank c = false := by
  rw [isAlpha_iff] at h
  exact not_isBlank (by omega)

lemma charKind_of_isBlank {c : Char} (h : Text.isBlank c = true) : charKind c = .blank := if_pos h

@[simp] lemma charKind_char (s : Sign) : charKind s.char = .sign s := by
  cases s <;> decide

lemma charKind_of_isDigit {c : Char} (h : c.isDigit = true) : charKind c = .digit := by
  have hplus : c ≠ '+' := by
    rintro rfl
    contradiction
  have hminus : c ≠ '-' := by
    rintro rfl
    contradiction
  simp [charKind,not_isBlank_of_isDigit h,hplus,hminus,h]

lemma charKind_of_isAlpha {c : Char} (h : c.isAlpha = true) : charKind c = .letter := by
  have hplus : c ≠ '+' := by
    rintro rfl
    contradiction
  have hminus : c ≠ '-' := by
    rintro rfl
    contradiction
  have hdigit : ¬ c.isDigit = true := fun hdigit => by
    simp [isAlpha_of_isDigit hdigit] at h
  simp [charKind,not_isBlank_of_isAlpha h,hplus,hminus,hdigit,h]

section Kinds
variable {c : Char}

lemma charKind_eq_blank : charKind c = .blank ↔ Text.isBlank c = true := by
  refine ⟨fun h => ?_,charKind_of_isBlank⟩
  unfold charKind at h
  split at h
  · assumption
  · split_ifs at h

lemma charKind_eq_sign {s : Sign} : charKind c = .sign s ↔ c = s.char := by
  refine ⟨fun h => ?_,?_⟩
  · unfold charKind at h
    split_ifs at h with _ hplus hminus <;> cases h
    · exact hplus
    · exact hminus
  · rintro rfl
    exact charKind_char s

lemma charKind_eq_digit : charKind c = .digit ↔ c.isDigit = true := by
  refine ⟨fun h => ?_,charKind_of_isDigit⟩
  unfold charKind at h
  split_ifs at h with _ _ _ hdigit
  exact hdigit

lemma charKind_eq_letter : charKind c = .letter ↔ c.isAlpha = true := by
  refine ⟨fun h => ?_,charKind_of_isAlpha⟩
  unfold charKind at h
  split_ifs at h with _ _ _ _ hletter
  exact hletter

end Kinds

/-- The kind of token that a character starts; white space starts none. -/
def CharKind.token : CharKind → Token.Kind
  | .blank | .other => .unknown
  | .sign .plus => .plus
  | .sign .minus => .minus
  | .digit => .number
  | .letter => .name

lemma kind_first {c : Char} (hc : Text.isBlank c = false) (rest : List Char) :
    (Lexeme.first c rest).kind = (charKind c).token := by
  simp only [Lexeme.first,charKind,hc,Bool.false_eq_true,if_false]
  split_ifs <;> rfl

section Tokens
variable {offset : ℕ} {cs : List Char}

@[simp] lemma tokensFrom_nil (offset : ℕ) :
    tokensFrom offset [] = [⟨.finish,⟨offset,offset⟩,[]⟩] := by rw [tokensFrom]

lemma tokensFrom_cons {c : Char} (hc : Text.isBlank c = false) :
    tokensFrom offset (c::cs) =
      ⟨(Lexeme.first c cs).kind,⟨offset,offset+Text.size (Lexeme.first c cs).text⟩,
        (Lexeme.first c cs).text⟩ ::
      tokensFrom (offset+Text.size (Lexeme.first c cs).text) (Lexeme.first c cs).rest := by
  rw [tokensFrom,if_neg (by simp [hc])]

lemma tokensFrom_blanks {bs : List Char} (hb : ∀ c ∈ bs, Text.isBlank c = true) (offset : ℕ) :
    tokensFrom offset (bs ++ cs) = tokensFrom (offset+Text.size bs) cs := by
  induction bs generalizing offset with
  | nil => rfl
  | cons b bs ih =>
    rw [List.cons_append,tokensFrom,if_pos (hb b (by simp)),ih fun c hc => hb c (by simp [hc]),
      Text.size_cons,add_assoc]

lemma tokensFrom_sign (s : Sign) : tokensFrom offset (s.char::cs) =
    ⟨(CharKind.sign s).token,⟨offset,offset+1⟩,[s.char]⟩ :: tokensFrom (offset+1) cs := by
  cases s <;> rw [tokensFrom_cons (by decide)] <;> rfl

/-- A run is as long as it can be. -/
lemma takeWhile_spec (p : Char → Bool) (cs : List Char) :
    (∀ c ∈ cs.takeWhile p, p c = true) ∧ ∀ c ∈ (cs.dropWhile p).head?, p c = false := by
  refine ⟨List.all_eq_true.mp List.all_takeWhile,fun c hc => ?_⟩
  have := List.head?_dropWhile_not p cs
  rw [Option.mem_def.mp hc] at this
  simpa using this

/-- Nothing more is taken into a run of characters than is in it. -/
lemma takeWhile_run {p : Char → Bool} {run : List Char} (hr : ∀ c ∈ run, p c = true)
    (hcs : ∀ c ∈ cs.head?, p c = false) :
    (run ++ cs).takeWhile p = run ∧ (run ++ cs).dropWhile p = cs := by
  rw [List.takeWhile_append_of_pos hr,List.dropWhile_append_of_pos hr]
  cases cs with
  | nil => simp
  | cons c cs => simp [hcs c rfl]

lemma tokensFrom_digits {ds : List Char} (hne : ds ≠ []) (hd : ∀ c ∈ ds, c.isDigit = true)
    (hcs : ∀ c ∈ cs.head?, c.isDigit = false) : tokensFrom offset (ds ++ cs) =
      ⟨.number,⟨offset,offset+Text.size ds⟩,ds⟩ :: tokensFrom (offset+Text.size ds) cs := by
  obtain ⟨d,ds,rfl⟩ := List.exists_cons_of_ne_nil hne
  have hkind := charKind_of_isDigit (hd d (by simp))
  have hblank := not_isBlank_of_isDigit (hd d (by simp))
  obtain ⟨htake,hdrop⟩ := takeWhile_run (fun c hc => hd c (List.mem_cons_of_mem d hc)) hcs
  have hfirst : Lexeme.first d (ds ++ cs) = ⟨.number,d::ds,cs⟩ := by
    simp only [charKind,hblank] at hkind
    unfold Lexeme.first
    split_ifs at hkind ⊢
    rw [htake,hdrop]
  rw [List.cons_append,tokensFrom_cons hblank,hfirst]

lemma tokensFrom_name {b : Body} (hdigit : ∀ c ∈ cs.head?, c.isDigit = false)
    (halpha : b.index = [] → ∀ c ∈ cs.head?, c.isAlpha = false) :
    tokensFrom offset (b.name ++ cs) =
      ⟨.name,⟨offset,offset+Text.size b.name⟩,b.name⟩ ::
        tokensFrom (offset+Text.size b.name) cs := by
  obtain ⟨l,ls,hls⟩ := List.exists_cons_of_ne_nil b.letters_ne_nil
  have hletters := b.letters_isAlpha
  rw [hls] at hletters
  have hkind := charKind_of_isAlpha (hletters l (by simp))
  have hblank := not_isBlank_of_isAlpha (hletters l (by simp))
  have hindex : ∀ c ∈ (b.index ++ cs).head?, c.isAlpha = false := by
    cases hi : b.index with
    | nil => exact halpha hi
    | cons i is =>
      intro c hc
      obtain rfl : i = c := by simpa using hc
      exact isAlpha_of_isDigit (b.index_isDigit i (by simp [hi]))
  obtain ⟨htake,hdrop⟩ := takeWhile_run (fun c hc => hletters c (List.mem_cons_of_mem l hc)) hindex
  obtain ⟨htake',hdrop'⟩ := takeWhile_run b.index_isDigit hdigit
  have hfirst : Lexeme.first l (ls ++ (b.index ++ cs)) = ⟨.name,l::(ls ++ b.index),cs⟩ := by
    simp only [charKind,hblank] at hkind
    unfold Lexeme.first
    split_ifs at hkind ⊢
    simp only [htake,hdrop,htake',hdrop']
  have hname : b.name = l::(ls ++ b.index) := by rw [Body.name,hls,List.cons_append]
  rw [hname,List.cons_append,List.append_assoc,tokensFrom_cons hblank,hfirst]

end Tokens

end Formula

end LinProg
