import LinProg.Text

/-!
Tokens of the text of an expression: runs of digits, names made of letters and then digits, signs,
and single characters that belong to nothing. White space parts tokens and is dropped.
-/
namespace LinProg.Formula

/-- A range of bytes of a text, without the one at `stop`. -/
structure Span where
  start : Nat
  stop : Nat
  deriving DecidableEq, Repr

/-- The least span over two. -/
def Span.merge (a b : Span) : Span := ⟨min a.start b.start, max a.stop b.stop⟩

namespace Token

inductive Kind
  | number
  | name
  | plus
  | minus
  /-- The end of the text. -/
  | finish
  | unknown
  deriving DecidableEq, Repr

end Token

structure Token where
  kind : Token.Kind
  span : Span
  text : List Char
  deriving DecidableEq, Repr

/-- The first token of a text that starts with one, and the text behind it. -/
structure Lexeme where
  kind : Token.Kind
  text : List Char
  rest : List Char

namespace Lexeme

/-- The longest token that starts with `c`, where `c` is no white space. -/
def first (c : Char) (rest : List Char) : Lexeme :=
  if c = '+' then ⟨.plus, [c], rest⟩
  else if c = '-' then ⟨.minus, [c], rest⟩
  else if c.isDigit then ⟨.number, c :: rest.takeWhile Char.isDigit, rest.dropWhile Char.isDigit⟩
  else if c.isAlpha then
    let behind := rest.dropWhile Char.isAlpha
    ⟨.name, c :: (rest.takeWhile Char.isAlpha ++ behind.takeWhile Char.isDigit),
      behind.dropWhile Char.isDigit⟩
  else ⟨.unknown, [c], rest⟩

/-- A token and what is behind it are the text. -/
@[simp] theorem text_append_rest (c : Char) (rest : List Char) :
    (first c rest).text ++ (first c rest).rest = c :: rest := by
  unfold first
  split
  · rfl
  · split
    · rfl
    · split
      · simp
      · split <;> simp

theorem text_ne_nil (c : Char) (rest : List Char) : (first c rest).text ≠ [] := by
  unfold first
  split
  · simp
  · split
    · simp
    · split
      · simp
      · split <;> simp

theorem length_rest_le (c : Char) (rest : List Char) :
    (first c rest).rest.length ≤ rest.length := by
  have h := congrArg List.length (text_append_rest c rest)
  have := List.length_pos_iff.2 (text_ne_nil c rest)
  simp only [List.length_append, List.length_cons] at h
  omega

end Lexeme

/-- The tokens of a text that starts `offset` bytes into its source; the last stands for the end. -/
def tokensFrom (offset : Nat) : List Char → List Token
  | [] => [⟨.finish, ⟨offset, offset⟩, []⟩]
  | c :: rest =>
    if Text.isBlank c then tokensFrom (offset + c.utf8Size) rest
    else
      let lexeme := Lexeme.first c rest
      let stop := offset + Text.size lexeme.text
      ⟨lexeme.kind, ⟨offset, stop⟩, lexeme.text⟩ :: tokensFrom stop lexeme.rest
  termination_by cs => cs.length
  decreasing_by
    · simp
    · exact Nat.lt_succ_of_le (Lexeme.length_rest_le c rest)

/-- The tokens of a text. -/
def tokens (source : String) : List Token := tokensFrom 0 source.toList

end LinProg.Formula
