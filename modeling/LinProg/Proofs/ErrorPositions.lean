import LinProg.CommandLine
import LinProg.Proofs.CompileErrors
import LinProg.Proofs.FirstFault
import LinProg.Proofs.TermSums

/-!
Where errors in the texts of a problem are. An error points between two characters of the text that
it is about, at what it quotes, so the mark under the text comes to stand there.
-/
namespace LinProg

lemma Text.before_size (front back : List Char) : before (front ++ back) (size front) = front := by
  induction front with
  | nil => cases back <;> simp [before]
  | cons c front ih =>
    have hc := c.utf8Size_pos
    have hne : c.utf8Size+size front ≠ 0 := by omega
    rw [List.cons_append,before,size_cons,if_neg hne,Nat.add_sub_cancel_left,ih]

namespace Formula

/-- The error quotes the text, or what stands in the text at the place of the error. -/
inductive ParseError.PointsInto (text : String) : ParseError → Prop
  | incomplete : PointsInto text (.incomplete (Text.size text.toList) text)
  | invalidCharacter {found : Char} {offset : ℕ}
      (h : Text.StandsAt text.toList ⟨offset,offset+found.utf8Size⟩ [found]) :
      PointsInto text (.invalidCharacter found offset text)
  | undeclaredVariable {name : String} {span : Span}
      (h : Text.StandsAt text.toList span name.toList) :
      PointsInto text (.undeclaredVariable name span)
  | coefficientOverflow {digits : String} {span : Span}
      (h : Text.StandsAt text.toList span digits.toList) :
      PointsInto text (.coefficientOverflow digits span)

section Positions
variable {source : String} {e : ParseError}

/-- The place of the error is between two characters, or at the end. -/
lemma ParseError.PointsInto.exists_front {text : String} (h : e.PointsInto text) :
    ∃ front back, text.toList = front ++ back ∧ Text.size front = e.offset := by
  cases h with
  | incomplete => exact ⟨text.toList,[],by simp,rfl⟩
  | invalidCharacter h | undeclaredVariable h | coefficientOverflow h =>
    obtain ⟨front,back,htext,hstart,-⟩ := h
    exact ⟨front,_,htext.trans (List.append_assoc ..),hstart⟩

/-- An error in the form of a text is at a character, or at the end of the text. -/
lemma pointsInto_of_parse (h : parse source = .error e) : e.PointsInto source := by
  cases hs : Stage.opening.stuckAt? source.toList with
  | none =>
    obtain ⟨terms,hok⟩ := accepts_iff.mpr hs
    rw [hok] at h
    contradiction
  | some back =>
    obtain ⟨front,hfront,-⟩ := Stage.of_stuckAt?_eq_some hs
    have hparts : source.toList = (front ++ skipped back) ++ reported back := by
      rw [List.append_assoc,skipped_append_reported,hfront]
    rw [parse_of_stuckAt? hs,invalidAt_eq_faultAt hparts] at h
    obtain rfl := Except.error.inj h
    cases hreported : reported back with
    | nil =>
      rw [hreported,List.append_nil] at hparts
      rw [faultAt,← hparts]
      exact .incomplete
    | cons c rest =>
      refine .invalidCharacter ⟨front ++ skipped back,rest,?_,rfl,by simp⟩
      rw [hparts,hreported,List.append_assoc (front ++ skipped back),List.singleton_append]

/-- The fault of a term is where its name or its digits stand. -/
lemma Term.Fails.pointsInto {r : Registry} {t : Term} (h : t.Fails r e)
    (ht : t.StandsIn source.toList) : e.PointsInto source := by
  cases h with
  | undeclared => exact .undeclaredVariable ht.name
  | overflow _ hc => exact .coefficientOverflow (ht.digits _ hc).2.1

theorem pointsInto_of_read {K : Type} [Scalar K] {r : Registry}
    (h : (read source r : Except ParseError (Equation K)) = .error e) : e.PointsInto source := by
  rcases Except.bind_eq_error.mp h with h | ⟨terms,hterms,h⟩
  · exact pointsInto_of_parse h
  · obtain ⟨w,hw⟩ := exists_written_of_parse hterms
    rw [parse_written hw] at hterms
    obtain rfl := Except.ok.inj hterms
    obtain ⟨front,t,back,hsplit,-,hfails⟩ := foldlM_addTerm_eq_error.mp h
    have ht : t ∈ w.terms := by simp [hsplit]
    exact hfails.pointsInto (hw ▸ w.terms_standsIn t ht)

end Positions

end Formula

namespace Problem
variable {K : Type} [Scalar K] {problem : Problem K} {stem : String} {location : Location}
  {source : Formula.ParseError}

lemma fault_of_compile {e : CompileError} (h : problem.compile stem = .error e) :
    problem.Fault stem e := by
  rw [← Except.failure?_eq_some,reports_compile] at h
  exact mem_faults.mp (List.mem_of_head? h)

/-- Constraints are counted from 1. -/
def Has (problem : Problem K) : Location → Prop
  | .objective => True
  | .constraint number => 1 ≤ number ∧ number ≤ problem.constraints.length

lemma Fault.has (h : problem.Fault stem (.parse location source)) : problem.Has location := by
  cases h with
  | objective => trivial
  | constraint hc =>
    have := List.mk_mem_zipIdx_iff_le_and_getElem?_sub.mp hc
    obtain ⟨hle,hget⟩ := this
    have := (List.getElem?_eq_some_iff.mp hget).1
    exact ⟨hle,by omega⟩

end Problem

namespace CommandLine

lemma compileErrorText_eq {p : Problem Float} {location : Location} {source : Formula.ParseError}
    {text : String} {front back : List Char} (htext : p.textAt? location = some text)
    (hparts : text.toList = front ++ back) (hfront : Text.size front = source.offset) :
    compileErrorText p (.parse location source) =
      "  " ++ (CompileError.parse location source).message ++ "\n" ++
        ("    " ++ text ++ "\n    " ++ "".pushn ' ' front.length ++ "^\n") := by
  simp only [compileErrorText,htext,hparts,← hfront,Text.before_size]

/-- If a text of a problem cannot be read, the text at the location of the error is this text. The
error points to what it quotes from it, and the mark under the text comes behind as many blanks as
there are characters in front of that place. -/
theorem compileErrorText_marks {p : Problem Float} {location : Location}
    {source : Formula.ParseError} (h : p.compile = .error (.parse location source)) :
    p.Has location ∧ ∃ text, p.textAt? location = some text ∧
      p.reading "X" text = .error source ∧ source.PointsInto text ∧
      ∃ front back, text.toList = front ++ back ∧ Text.size front = source.offset ∧
        compileErrorText p (.parse location source) =
          "  " ++ (CompileError.parse location source).message ++ "\n" ++
            ("    " ++ text ++ "\n    " ++ "".pushn ' ' front.length ++ "^\n") := by
  have hfault := Problem.fault_of_compile h
  obtain ⟨text,htext,hreading⟩ := hfault.textAt? rfl
  have hread := hreading source rfl
  have hpoints := Formula.pointsInto_of_read hread
  obtain ⟨front,back,hparts,hfront⟩ := hpoints.exists_front
  exact ⟨hfault.has,text,htext,hread,hpoints,front,back,hparts,hfront,
    compileErrorText_eq htext hparts hfront⟩

/-- The second constraint has a wide blank in front of a name that is not declared. -/
def wideProblem : Problem Float where
  variableCount := 2
  objective := "X1"
  direction := .maximize
  constraints := [⟨"X1",.atMost,4⟩,⟨"2X2 +\u2003y",.atLeast,1⟩]

/-- The name is behind eight bytes, and these are six characters. -/
theorem compileErrorText_marks_wide :
    wideProblem.compile = .error (.parse (.constraint 2) (.undeclaredVariable "y" ⟨8,9⟩)) ∧
      wideProblem.textAt? (.constraint 2) = some "2X2 +\u2003y" ∧
      Formula.ParseError.PointsInto "2X2 +\u2003y" (.undeclaredVariable "y" ⟨8,9⟩) ∧
      compileErrorText wideProblem (.parse (.constraint 2) (.undeclaredVariable "y" ⟨8,9⟩)) =
        "  " ++ (CompileError.parse (.constraint 2) (.undeclaredVariable "y" ⟨8,9⟩)).message ++
          "\n" ++ ("    " ++ "2X2 +\u2003y" ++ "\n    " ++ "".pushn ' ' 6 ++ "^\n") := by
  have h : wideProblem.compile =
      .error (.parse (.constraint 2) (.undeclaredVariable "y" ⟨8,9⟩)) :=
    Except.failure?_eq_some.mp (by decide +kernel)
  obtain ⟨-,text,htext,-,hpoints,front,back,hparts,hfront,hmark⟩ := compileErrorText_marks h
  have hwide : wideProblem.textAt? (.constraint 2) = some "2X2 +\u2003y" := by decide +kernel
  obtain rfl := Option.some.inj (hwide.symm.trans htext)
  have hlength : front.length = 6 := by
    rw [← Text.before_size front back,hfront,← hparts]
    decide +kernel
  rw [hlength] at hmark
  exact ⟨h,hwide,hpoints,hmark⟩

end CommandLine

end LinProg
