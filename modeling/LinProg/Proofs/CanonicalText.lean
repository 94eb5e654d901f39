import LinProg.Proofs.AddedNames
import LinProg.Proofs.Coefficients

/-!
The canonical text of an expression is an expression as it is written. Its terms render the
coefficients other than zero in the order of the variables, or a zero where there are none.
-/
namespace LinProg

namespace Registry

/-- Expressions can name every variable: names are words, and looked up they give the variable. -/
structure Nameable (r : Registry) : Prop where
  ordered : r.Ordered
  word : ∀ v ∈ r.members, ∃ word : Formula.Body, String.ofList word.name = v.name
  found : ∀ v ∈ r.members, r.find? v.name = some v

lemma find?_numbered {stem : String} {count : ℕ} {v : Variable}
    (hv : v ∈ (numbered stem count).members) : (numbered stem count).find? v.name = some v := by
  cases hfind : (numbered stem count).find? v.name with
  | none =>
    have := List.find?_eq_none.mp hfind v hv
    exact absurd (Text.sameLetters_iff.mpr rfl) this
  | some w =>
    obtain ⟨i,-,rfl⟩ := List.mem_map.mp hv
    obtain ⟨j,-,rfl⟩ := List.mem_map.mp (List.mem_of_find?_eq_some hfind)
    have hnamed := List.find?_some hfind
    rw [Text.sameLetters_toString hnamed]

lemma nameable_numbered (count : ℕ) : (numbered "X" count).Nameable where
  ordered := ordered_numbered "X" count
  word v hv := by
    obtain ⟨i,-,rfl⟩ := List.mem_map.mp hv
    refine ⟨⟨[],['X'],Nat.toDigits 10 (i+1),by simp,by simp,by simp,fun c hc =>
      Decimal.isDigit_of_mem_toDigits hc⟩,?_⟩
    rw [← String.toList_inj]
    simp [Formula.Body.name]
  found v hv := find?_numbered hv

end Registry

namespace Equation

def extend (text : String) (p : Variable × Float) : String :=
  text ++ termText text.isEmpty p.2 p.1.name

/-- The variables with coefficients other than zero, and these. -/
def shown (e : Equation Float) : List Variable → List (Variable × Float)
  | [] => []
  | v::vs =>
    match e.get? v.index with
    | none => e.shown vs
    | some c => if c == 0 then e.shown vs else (v,c)::e.shown vs

lemma textFrom_eq (e : Equation Float) (text : String) (vs : List Variable) :
    e.textFrom text vs = (e.shown vs).foldl extend text := by
  induction vs generalizing text with
  | nil => rfl
  | cons v vs ih =>
    rw [textFrom,shown]
    cases e.get? v.index with
    | none => exact ih text
    | some c =>
      dsimp only
      split <;> exact ih _

lemma sublist_shown (e : Equation Float) (vs : List Variable) :
    ((e.shown vs).map Prod.fst).Sublist vs := by
  induction vs with
  | nil => exact .slnil
  | cons v vs ih =>
    rw [shown]
    split
    case h_1 => exact ih.cons v
    case h_2 c _ =>
      split
      case isTrue => exact ih.cons v
      case isFalse => exact ih.cons_cons v

lemma get?_of_mem_shown {e : Equation Float} {vs : List Variable} {p : Variable × Float}
    (hp : p ∈ e.shown vs) : e.get? p.1.index = some p.2 ∧ (p.2 == 0) = false := by
  induction vs with
  | nil => simp [shown] at hp
  | cons v vs ih =>
    rw [shown] at hp
    split at hp
    case h_1 => exact ih hp
    case h_2 c hget =>
      split at hp
      case isTrue => exact ih hp
      case isFalse hc =>
        rcases List.mem_cons.mp hp with rfl | hp
        · exact ⟨hget,by simpa using hc⟩
        · exact ih hp

lemma mem_shown {e : Equation Float} {vs : List Variable} {v : Variable} {c : Float}
    (hv : v ∈ vs) (hget : e.get? v.index = some c) (hc : (c == 0) = false) :
    (v,c) ∈ e.shown vs := by
  induction vs with
  | nil => simp at hv
  | cons w vs ih =>
    rw [shown]
    rcases List.mem_cons.mp hv with rfl | hv
    · rw [hget]
      simp [hc]
    · split
      case h_1 => exact ih hv
      case h_2 =>
        split
        case isTrue => exact ih hv
        case isFalse => exact List.mem_cons_of_mem _ (ih hv)

end Equation

namespace Formula
open Double

/-- A term that can be shown: a coefficient other than zero in front of a word. -/
structure Showable (p : Variable × Float) : Prop where
  word : ∃ word : Body, String.ofList word.name = p.1.name
  denotes : ∃ a, a ≠ 0 ∧ Denotes p.2 a

def Term.Shows (t : Term) (p : Variable × Float) : Prop := t.Renders p.1.name p.2

section Layout

def Blanks.one : Blanks := ⟨[' '],List.forall_mem_singleton.mpr rfl⟩

lemma toList_termText {c : Float} {name : String} {b : Body} (leading : Bool)
    (hdigits : String.ofList b.digits =
      if Scalar.magnitude c == 1 then "" else Decimal.plain (Scalar.magnitude c))
    (hname : String.ofList b.name = name) :
    (Equation.termText leading c name).toList =
      (if leading then (if c < 0 then ['-'] else []) else [' ',(signOf c).char,' ']) ++ b.text := by
  unfold Equation.termText signOf
  dsimp only
  rw [← hdigits,← hname]
  have hsign : " - ".toList = [' ','-',' '] ∧ " + ".toList = [' ','+',' '] ∧
      "-".toList = ['-'] := ⟨rfl,rfl,rfl⟩
  cases leading <;> by_cases hc : c < 0 <;> simp [hc,hsign,Body.text,Sign.char]

/-- Terms that can be shown are written behind others with a sign between any two. What stands in
front is any text but the empty one, which would take the sign without blanks. -/
lemma exists_tail {ps : List (Variable × Float)} (hps : ∀ p ∈ ps, Showable p) : ∃ tail : Tail,
    (∀ text, text ≠ "" → (ps.foldl Equation.extend text).toList = text.toList ++ tail.text) ∧
    ∀ offset, List.Forall₂ Term.Shows (tail.terms offset) ps := by
  induction ps with
  | nil => exact ⟨.finish .none,fun text _ => (List.append_nil _).symm,fun _ => .nil⟩
  | cons p ps ih =>
    obtain ⟨tail,htext,hterms⟩ := ih fun q hq => hps q (List.mem_cons_of_mem p hq)
    obtain ⟨⟨word,hword⟩,a,ha,hd⟩ := hps p (by simp)
    obtain ⟨b,hname,hdigits,hrenders⟩ := exists_body hd ha word
    rw [← hname] at hword hrenders
    refine ⟨.more .one (signOf p.2) .one b tail,fun text hne => ?_,fun offset => ?_⟩
    · have hextend : Equation.extend text p ≠ "" := by
        simp [Equation.extend,hne]
      rw [List.foldl_cons,htext _ hextend,Equation.extend,String.toList_append,
        String.isEmpty_eq_false_iff.mpr hne,toList_termText false hdigits hword]
      simp [Tail.text,Blanks.one]
    · refine .cons ?_ (hterms _)
      rw [Term.Shows,← hword]
      exact hrenders _ _ rfl

/-- Terms that can be shown are an expression. -/
lemma exists_written {p : Variable × Float} {ps : List (Variable × Float)}
    (hps : ∀ q ∈ p::ps, Showable q) : ∃ w : Written,
      w.text = ((p::ps).foldl Equation.extend "").toList ∧
      List.Forall₂ Term.Shows w.terms (p::ps) := by
  obtain ⟨tail,htext,hterms⟩ := exists_tail fun q hq => hps q (List.mem_cons_of_mem p hq)
  obtain ⟨⟨word,hword⟩,a,ha,hd⟩ := hps p (by simp)
  obtain ⟨b,hname,hdigits,hrenders⟩ := exists_body hd ha word
  rw [← hname] at hword hrenders
  have hfirst := toList_termText true hdigits hword
  have hextend : Equation.extend "" p = Equation.termText true p.2 p.1.name := String.empty_append
  have hne : Equation.extend "" p ≠ "" := by
    rw [hextend,ne_eq,← String.toList_inj,hfirst]
    simp [Body.text,Body.name,b.letters_ne_nil]
  let sign? : Option (Sign × Blanks) := if p.2 < 0 then some (.minus,.none) else .none
  refine ⟨⟨.none,sign?,b,tail⟩,?_,?_⟩
  · rw [List.foldl_cons,htext _ hne,hextend,hfirst]
    by_cases hc : p.2 < 0 <;> simp [Written.text,Written.signText,sign?,hc,Blanks.none,Sign.char]
  · refine .cons ?_ (hterms _)
    rw [Term.Shows,← hword]
    refine hrenders _ _ ?_
    by_cases hc : p.2 < 0 <;> simp [sign?,signOf,hc]

/-- A zero in front of a word is an expression. -/
lemma exists_zero_written {v : Variable} (hv : ∃ word : Body, String.ofList word.name = v.name) :
    ∃ w : Written, w.text = ("0" ++ v.name).toList ∧ List.Forall₂ Term.Shows w.terms [(v,0)] := by
  obtain ⟨word,hword⟩ := hv
  obtain ⟨b,hname,hdigits,hrenders⟩ := exists_zero_body word
  refine ⟨⟨.none,.none,b,.finish .none⟩,?_,.cons ?_ .nil⟩
  · simp [Written.text,Written.signText,Blanks.none,Tail.text,Body.text,hdigits,hname,← hword]
  · rw [Term.Shows,← hword]
    exact hrenders _

end Layout

end Formula

end LinProg
