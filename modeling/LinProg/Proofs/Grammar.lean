import LinProg.Formula.Term
import Mathlib.Tactic

/-!
Expressions as they are written, white space included: terms with a sign between any two of them,
each with optional digits right before a name of letters and further digits. The layout of a text
fixes its terms, with the bytes they take.
-/
namespace LinProg

namespace Text

/-- A piece stands in the text at a span, which begins and ends between characters. -/
def StandsAt (text : List Char) (span : Formula.Span) (piece : List Char) : Prop :=
  ∃ front back, text = front ++ piece ++ back ∧ size front = span.start ∧
    size front+size piece = span.stop

end Text

namespace Formula

def Sign.char : Sign → Char
  | .plus => '+'
  | .minus => '-'

@[simp] lemma Sign.utf8Size_char (s : Sign) : s.char.utf8Size = 1 := by cases s <;> rfl

structure Blanks where
  chars : List Char
  isBlank : ∀ c ∈ chars, Text.isBlank c = true

def Blanks.none : Blanks := ⟨[],by simp⟩

/-- The digits of a coefficient, perhaps none, and a name right behind them. -/
structure Body where
  digits : List Char
  letters : List Char
  index : List Char
  digits_isDigit : ∀ c ∈ digits, c.isDigit = true
  letters_ne_nil : letters ≠ []
  letters_isAlpha : ∀ c ∈ letters, c.isAlpha = true
  index_isDigit : ∀ c ∈ index, c.isDigit = true

namespace Body

def name (b : Body) : List Char := b.letters ++ b.index

def text (b : Body) : List Char := b.digits ++ b.name

/-- The term of a body that starts at `offset`, behind a sign at the offset given with it. -/
def term (sign? : Option (Sign × ℕ)) (offset : ℕ) (b : Body) : Term :=
  let nameAt := offset+Text.size b.digits
  let stop := nameAt+Text.size b.name
  { span := ⟨(sign?.map Prod.snd).getD offset,stop⟩
    sign := (sign?.map Prod.fst).getD .plus
    coefficient? :=
      if b.digits = [] then none else some ⟨⟨offset,nameAt⟩,String.ofList b.digits⟩
    name := String.ofList b.name
    nameSpan := ⟨nameAt,stop⟩ }

end Body

/-- What follows a term: further terms with their signs, and white space at the end. -/
inductive Tail
  | finish (after : Blanks)
  | more (before : Blanks) (sign : Sign) (behind : Blanks) (body : Body) (rest : Tail)

namespace Tail

def text : Tail → List Char
  | finish after => after.chars
  | more before sign behind body rest =>
    before.chars ++ sign.char :: (behind.chars ++ (body.text ++ rest.text))

def terms : ℕ → Tail → List Term
  | _, finish _ => []
  | offset, more before sign behind body rest =>
    let signAt := offset+Text.size before.chars
    let start := signAt+1+Text.size behind.chars
    body.term (some (sign,signAt)) start :: rest.terms (start+Text.size body.text)

end Tail

/-- An expression: the first term may go without a sign. -/
structure Written where
  before : Blanks
  sign? : Option (Sign × Blanks)
  body : Body
  rest : Tail

namespace Written

def signText (w : Written) : List Char :=
  match w.sign? with
  | none => []
  | some (sign,behind) => sign.char :: behind.chars

def text (w : Written) : List Char :=
  w.before.chars ++ (w.signText ++ (w.body.text ++ w.rest.text))

def terms (w : Written) : List Term :=
  let signAt := Text.size w.before.chars
  let start := signAt+Text.size w.signText
  w.body.term (w.sign?.map fun s => (s.1,signAt)) start ::
    w.rest.terms (start+Text.size w.body.text)

end Written

/-- The parts of a term stand in the text where the term says. Its span runs from the sign, or from
the digits or the name where no sign is written, to the end of the name. -/
structure Term.StandsIn (text : List Char) (t : Term) : Prop where
  name : Text.StandsAt text t.nameSpan t.name.toList
  digits : ∀ c ∈ t.coefficient?, c.digits ≠ "" ∧ Text.StandsAt text c.span c.digits.toList ∧
    c.span.stop = t.nameSpan.start
  stop : t.span.stop = t.nameSpan.stop
  start : Text.StandsAt text ⟨t.span.start,t.span.start+1⟩ [t.sign.char] ∨
    t.sign = .plus ∧ t.span.start = (t.coefficient?.map (·.span.start)).getD t.nameSpan.start

/-- A body stands where it was found, and so do the parts of its term. -/
lemma Body.term_standsIn {text front back : List Char} {b : Body} {sign? : Option (Sign × ℕ)}
    (h : text = front ++ b.text ++ back)
    (hsign : ∀ s ∈ sign?, Text.StandsAt text ⟨s.2,s.2+1⟩ [s.1.char]) :
    (b.term sign? (Text.size front)).StandsIn text where
  name := by
    refine ⟨front ++ b.digits,back,?_,?_,?_⟩
    · simp [h,Body.text,Body.term]
    · simp [Body.term]
    · simp [Body.term]
  digits c hc := by
    simp only [Body.term,Option.mem_def] at hc
    split at hc
    case isTrue => contradiction
    case isFalse hne =>
      obtain rfl := Option.some.inj hc
      refine ⟨?_,⟨front,b.name ++ back,?_,rfl,?_⟩,rfl⟩
      · simpa [← String.toList_inj] using hne
      · simp [h,Body.text]
      · simp
  stop := rfl
  start := by
    cases sign? with
    | none =>
      refine .inr ⟨rfl,?_⟩
      by_cases hd : b.digits = [] <;> simp [Body.term,hd]
    | some s => exact .inl (hsign s rfl)

lemma Written.text_ne_nil (w : Written) : w.text ≠ [] := by
  simp [Written.text,Body.text,Body.name,w.body.letters_ne_nil]

lemma Tail.terms_standsIn {text front : List Char} {r : Tail} (h : text = front ++ r.text) :
    ∀ t ∈ r.terms (Text.size front), t.StandsIn text := by
  induction r generalizing front with
  | finish => simp [terms]
  | more before sign behind body rest ih =>
    let start := front ++ before.chars ++ sign.char :: behind.chars
    have hstart : Text.size front+Text.size before.chars+1+Text.size behind.chars =
        Text.size start := by
      simp only [start,Text.size_append,Text.size_cons,Sign.utf8Size_char]
      omega
    have hbody : text = start ++ body.text ++ rest.text := by simp [h,Tail.text,start]
    intro t ht
    simp only [terms,List.mem_cons] at ht
    rw [hstart,← Text.size_append start body.text] at ht
    rcases ht with rfl | ht
    · refine Body.term_standsIn hbody fun s hs => ?_
      obtain rfl := Option.some.inj hs
      exact ⟨front ++ before.chars,behind.chars ++ (body.text ++ rest.text),by simp [h,Tail.text],
        by simp,by simp⟩
    · exact ih hbody t ht

theorem Written.terms_standsIn (w : Written) : ∀ t ∈ w.terms, t.StandsIn w.text := by
  intro t ht
  simp only [terms,← Text.size_append,List.mem_cons] at ht
  rcases ht with rfl | ht
  · have hbody : w.text = w.before.chars ++ w.signText ++ w.body.text ++ w.rest.text := by simp [text]
    refine Body.term_standsIn hbody ?_
    intro s hs
    obtain ⟨⟨sign,behind⟩,hw,rfl⟩ := Option.map_eq_some_iff.mp hs
    exact ⟨w.before.chars,behind.chars ++ (w.body.text ++ w.rest.text),
      by simp [text,signText,hw],rfl,by simp⟩
  · exact Tail.terms_standsIn (by simp [text]) t ht

end Formula

end LinProg
