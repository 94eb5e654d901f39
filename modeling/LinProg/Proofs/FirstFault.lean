import LinProg.Proofs.Acceptance

/-!
Errors of a text that is no expression, against the longest beginning of the text that some
expression has. The error is where that beginning ends, unless it ends in digits and white space
follows: if no name comes behind the white space, the error is reported there.
-/
namespace LinProg

lemma Text.charAt?_size (front back : List Char) :
    charAt? (front ++ back) (size front) = back.head? := by
  induction front with
  | nil => cases back <;> simp [charAt?]
  | cons c front ih =>
    have hc := c.utf8Size_pos
    have hne : c.utf8Size+size front ≠ 0 := by omega
    rw [List.cons_append,charAt?,size_cons,if_neg hne,Nat.add_sub_cancel_left,ih]

namespace Formula

/-- Some expression begins with the text. -/
def Viable (cs : List Char) : Prop := ∃ more terms, parse (String.ofList (cs ++ more)) = .ok terms

/-- The text falls into the longest beginning that is viable and the rest. -/
structure FirstFault (cs front back : List Char) : Prop where
  text : cs = front ++ back
  viable : Viable front
  longest : ∀ piece, piece <+: cs → Viable piece → piece.length ≤ front.length

/-- The error for a text that is good up to `back`. -/
def faultAt (source : String) (front : List Char) : List Char → ParseError
  | [] => .incomplete (Text.size front) source
  | c::_ => .invalidCharacter c (Text.size front) source

/-- White space at the head of a text that is passed over before the error is noticed: all of it,
unless a name follows. -/
def skipped (back : List Char) : List Char :=
  if (back.dropWhile Text.isBlank).head?.any Char.isAlpha then [] else back.takeWhile Text.isBlank

lemma skipped_append_reported (back : List Char) : skipped back ++ reported back = back := by
  unfold skipped reported
  split
  · rfl
  · exact List.takeWhile_append_dropWhile

lemma viable_iff {cs : List Char} :
    Viable cs ↔ ∃ more, Stage.opening.stuckAt? (cs ++ more) = none := by
  simp only [Viable,accepts_iff,String.toList_ofList]

/-- The fault of a text is where it gets stuck. -/
lemma firstFault_of_stuckAt? {cs back : List Char} (h : Stage.opening.stuckAt? cs = some back) :
    ∃ front, FirstFault cs front back := by
  obtain ⟨front,htext,hviable,hstuck⟩ := Stage.of_stuckAt?_eq_some h
  refine ⟨front,htext,viable_iff.mpr hviable,?_⟩
  rintro piece ⟨left,hpiece⟩ hviable
  by_contra hlong
  rw [not_le] at hlong
  rw [htext] at hpiece
  obtain ⟨further,rfl,-⟩ | ⟨further,rfl,hback⟩ := List.append_eq_append_iff.mp hpiece
  · rw [List.length_append] at hlong
    omega
  · cases further with
    | nil => simp at hlong
    | cons c further =>
      obtain ⟨more,hmore⟩ := viable_iff.mp hviable
      rw [List.append_assoc] at hmore
      exact hstuck c _ hback _ hmore

lemma invalidAt_eq_faultAt {source : String} {front back : List Char}
    (h : source.toList = front ++ back) :
    ParseError.invalidAt source (Text.size source.toList-Text.size back) =
      faultAt source front back := by
  have hat : Text.size source.toList-Text.size back = Text.size front := by simp [h]
  rw [ParseError.invalidAt,hat,h,Text.charAt?_size]
  cases back <;> rfl

/-- Errors with different positions differ. -/
lemma size_eq_of_faultAt_eq {source : String} {front front' back back' : List Char}
    (h : faultAt source front back = faultAt source front' back') :
    Text.size front = Text.size front' := by
  have hoffset : ∀ front back, (faultAt source front back).offset = Text.size front := by
    intro front back
    cases back <;> rfl
  rw [← hoffset front back,h,hoffset]

/-- The error of a text that is no expression lies behind its longest viable beginning and the white
space that is skipped there. So it lies at the first fault exactly if no white space is skipped. -/
theorem parse_error_at_fault {source : String} {e : ParseError} (h : parse source = .error e) :
    ∃ front back, FirstFault source.toList front back ∧
      e = faultAt source (front ++ skipped back) (reported back) ∧
      (e = faultAt source front back ↔ skipped back = []) := by
  have hrejected : Stage.opening.stuckAt? source.toList ≠ none := by
    rw [ne_eq,← accepts_iff]
    rintro ⟨terms,hok⟩
    rw [h] at hok
    contradiction
  obtain ⟨back,hs⟩ := Option.ne_none_iff_exists'.mp hrejected
  obtain ⟨front,hfault⟩ := firstFault_of_stuckAt? hs
  have hparts : source.toList = (front ++ skipped back) ++ reported back := by
    rw [List.append_assoc,skipped_append_reported,hfault.text]
  rw [parse_of_stuckAt? hs,invalidAt_eq_faultAt hparts] at h
  obtain rfl := Except.error.inj h
  refine ⟨front,back,hfault,rfl,fun heq => ?_,fun hnil => ?_⟩
  · have hsize := size_eq_of_faultAt_eq heq
    rw [Text.size_append] at hsize
    cases hb : skipped back with
    | nil => rfl
    | cons c cs =>
      have := c.utf8Size_pos
      rw [hb,Text.size_cons] at hsize
      omega
  · have hback := skipped_append_reported back
    rw [hnil,List.nil_append] at hback
    rw [hnil,hback,List.append_nil]

/-- A character that belongs to nothing is found where it stands. -/
theorem parse_error_at_fault_star : parse "X1 +*" = .error (.invalidCharacter '*' 4 "X1 +*") ∧
    ∃ front back, FirstFault "X1 +*".toList front back ∧
      ParseError.invalidCharacter '*' 4 "X1 +*" =
        faultAt "X1 +*" (front ++ skipped back) (reported back) ∧
      (ParseError.invalidCharacter '*' 4 "X1 +*" = faultAt "X1 +*" front back ↔
        skipped back = []) := by
  have h : parse "X1 +*" = .error (.invalidCharacter '*' 4 "X1 +*") :=
    @parse_of_stuckAt? _ ['*'] (by decide)
  exact ⟨h,parse_error_at_fault h⟩

/-- A number with white space behind it is said to be incomplete, yet nothing can complete it. -/
theorem incomplete_not_viable :
    parse "3 " = .error (.incomplete 2 "3 ") ∧ ¬ Viable "3 ".toList := by
  refine ⟨@parse_of_stuckAt? _ [' '] (by decide),?_⟩
  rw [viable_iff]
  rintro ⟨more,h⟩
  contradiction

end Formula

end LinProg
