import LinProg.Proofs.Spelling

/-!
An expression read character by character. The stages tell how far it has come; a character that no
stage follows on is where the text stops being the beginning of an expression.
-/
namespace LinProg

namespace Formula

/-- How far an expression has been read. -/
inductive Stage
  | opening
  | signed
  | counting
  /-- In the letters of a name. -/
  | lettered
  /-- In the digits of a name. -/
  | indexed
  /-- In white space behind a term. -/
  | closed
  deriving DecidableEq

namespace Stage

/-- The stage behind a character, if the expression can go on with it. -/
def next : Stage → CharKind → Option Stage
  | opening, .blank => some opening
  | signed, .blank => some signed
  | lettered, .blank | indexed, .blank | closed, .blank => some closed
  | opening, .sign _ | lettered, .sign _ | indexed, .sign _ | closed, .sign _ => some signed
  | opening, .digit | signed, .digit | counting, .digit => some counting
  | lettered, .digit | indexed, .digit => some indexed
  | opening, .letter | signed, .letter | counting, .letter | lettered, .letter => some lettered
  | _, _ => none

def ends : Stage → Bool
  | opening | signed | counting => false
  | lettered | indexed | closed => true

/-- What is left of a text where it stops being the rest of an expression: at a character that
cannot follow, or at the end, if the expression cannot end there. -/
def stuckAt? : Stage → List Char → Option (List Char)
  | st, [] => if st.ends then none else some []
  | st, c::cs =>
    match st.next (charKind c) with
    | some st' => st'.stuckAt? cs
    | none => some (c::cs)

variable {st st' : Stage} {c : Char} {cs : List Char}

lemma stuckAt?_of_next (h : st.next (charKind c) = some st') :
    st.stuckAt? (c::cs) = st'.stuckAt? cs := by
  rw [stuckAt?,h]

lemma stuckAt?_of_next_eq_none (h : st.next (charKind c) = none) :
    st.stuckAt? (c::cs) = some (c::cs) := by
  rw [stuckAt?,h]

lemma stuckAt?_cons_eq_none : st.stuckAt? (c::cs) = none ↔
    ∃ st', st.next (charKind c) = some st' ∧ st'.stuckAt? cs = none := by
  rw [stuckAt?]
  split <;> simp_all

/-- A run of characters that keeps a stage can be skipped. -/
lemma stuckAt?_run {kind : CharKind} (h : st.next kind = some st) {run : List Char}
    (hrun : ∀ c ∈ run, charKind c = kind) : st.stuckAt? (run ++ cs) = st.stuckAt? cs := by
  induction run with
  | nil => rfl
  | cons c run ih =>
    have hc : st.next (charKind c) = some st := by rw [hrun c (by simp),h]
    rw [List.cons_append,stuckAt?_of_next hc,ih fun c hc => hrun c (by simp [hc])]

/-- Behind a name it does not matter whether white space follows. -/
lemma stuckAt?_name (h : st = lettered ∨ st = indexed)
    (hdigit : ∀ c ∈ cs.head?, charKind c ≠ .digit)
    (hletter : st = lettered → ∀ c ∈ cs.head?, charKind c ≠ .letter) :
    st.stuckAt? cs = closed.stuckAt? cs := by
  cases cs with
  | nil => rcases h with rfl | rfl <;> rfl
  | cons c cs =>
    have hd := hdigit c rfl
    have hnext : st.next (charKind c) = closed.next (charKind c) := by
      rcases h with rfl | rfl
      · have hl := hletter rfl c rfl
        cases hk : charKind c <;> simp_all [next]
      · cases hk : charKind c <;> simp_all [next]
    rw [stuckAt?,stuckAt?,hnext]

/-- Every stage can be brought to an end. -/
lemma exists_rest (st : Stage) : ∃ rest, st.stuckAt? rest = none := by
  cases st
  case opening | signed | counting => exact ⟨['X'],rfl⟩
  case lettered | indexed | closed => exact ⟨[],rfl⟩

/-- The text before the place where it gets stuck can go on, but not with the character there. -/
theorem of_stuckAt?_eq_some {rest : List Char} (h : st.stuckAt? cs = some rest) :
    ∃ front, cs = front ++ rest ∧ (∃ more, st.stuckAt? (front ++ more) = none) ∧
      ∀ c tail, rest = c::tail → ∀ more, st.stuckAt? (front ++ c::more) ≠ none := by
  induction cs generalizing st with
  | nil =>
    rw [stuckAt?] at h
    split at h
    · contradiction
    · obtain rfl := Option.some.inj h
      exact ⟨[],rfl,st.exists_rest,by simp⟩
  | cons c cs ih =>
    cases hn : st.next (charKind c) with
    | none =>
      rw [stuckAt?_of_next_eq_none hn] at h
      obtain rfl := Option.some.inj h
      refine ⟨[],rfl,st.exists_rest,?_⟩
      intro c' tail hc more
      obtain ⟨rfl,rfl⟩ := List.cons.inj hc
      rw [List.nil_append,stuckAt?_of_next_eq_none hn]
      simp
    | some st' =>
      rw [stuckAt?_of_next hn] at h
      obtain ⟨front,rfl,⟨more,hmore⟩,hstuck⟩ := ih h
      refine ⟨c::front,rfl,⟨more,?_⟩,?_⟩
      · rw [List.cons_append,stuckAt?_of_next hn,hmore]
      · intro c' tail hc more
        rw [List.cons_append,stuckAt?_of_next hn]
        exact hstuck c' tail hc more

end Stage

end Formula

end LinProg
