import LinProg.Proofs.Lexemes

/-!
The tokens of a text tile it: they follow each other in the text, with white space between them and
nothing else, each of them takes in all that it can, and one more token marks the end.
-/
namespace LinProg

namespace Formula

def Span.Covers (s : Span) (offset : ℕ) : Prop := s.start ≤ offset ∧ offset < s.stop

lemma Span.covers_iff {start length offset : ℕ} :
    (⟨start,start+length⟩ : Span).Covers (start+offset) ↔ offset < length := by
  simp [Covers]

/-- What a token of a kind consists of, between what stands in front of it and what stands behind it.
A run of letters or digits goes on as far as there are any, to both sides. -/
inductive Token.Kind.Takes (front : List Char) : Token.Kind → List Char → List Char → Prop
  | number {digits back : List Char} (hne : digits ≠ []) (hdigits : ∀ c ∈ digits, c.isDigit = true)
      (hfront : ∀ c ∈ front.getLast?, c.isDigit = false ∧ c.isAlpha = false)
      (hback : ∀ c ∈ back.head?, c.isDigit = false) : Takes front .number digits back
  | name {letters digits back : List Char} (hne : letters ≠ [])
      (hletters : ∀ c ∈ letters, c.isAlpha = true) (hdigits : ∀ c ∈ digits, c.isDigit = true)
      (hfront : ∀ c ∈ front.getLast?, c.isAlpha = false)
      (hback : ∀ c ∈ back.head?, c.isDigit = false ∧ (digits = [] → c.isAlpha = false)) :
      Takes front .name (letters ++ digits) back
  | plus {back : List Char} : Takes front .plus ['+'] back
  | minus {back : List Char} : Takes front .minus ['-'] back
  | unknown {c : Char} {back : List Char} (hblank : Text.isBlank c = false) (hplus : c ≠ '+')
      (hminus : c ≠ '-') (hdigit : c.isDigit = false) (halpha : c.isAlpha = false) :
      Takes front .unknown [c] back

/-- The tokens lie in the text one behind the other, with white space around them. -/
structure Tiling (text : List Char) (ts : List Token) : Prop where
  /-- The last token and no other one marks the end; the others are not empty. -/
  finish : ∃ init, ts = init ++ [⟨.finish,⟨Text.size text,Text.size text⟩,[]⟩] ∧
    ∀ t ∈ init, t.kind ≠ .finish ∧ t.span.start < t.span.stop
  ordered : ts.Pairwise fun t u => t.span.start < u.span.start ∧ t.span.stop ≤ u.span.start
  standsAt : ∀ t ∈ ts, Text.StandsAt text t.span t.text
  takes : ∀ t ∈ ts, t.kind ≠ .finish → ∃ front back, text = front ++ t.text ++ back ∧
    Text.size front = t.span.start ∧ t.kind.Takes front t.text back
  /-- What lies in no token is white space, and what lies in one is not. -/
  isBlank_iff : ∀ front c back, text = front ++ c::back →
    (Text.isBlank c = true ↔ ∀ t ∈ ts, ¬ t.span.Covers (Text.size front))

/-- No token reaches over the place between the two texts: a digit is not followed by a digit, and
a letter by neither. -/
def Apart (front back : List Char) : Prop :=
  ∀ c ∈ front.getLast?, ∀ d ∈ back.head?, (c.isDigit = true → d.isDigit = false) ∧
    (c.isAlpha = true → d.isDigit = false ∧ d.isAlpha = false)

/-- White space and other single characters end all runs. -/
lemma apart_of_single {c : Char} (front back : List Char) (hdigit : c.isDigit = false)
    (halpha : c.isAlpha = false) : Apart (front ++ [c]) back := by
  intro c' hc'
  obtain rfl : c = c' := by simpa using hc'
  simp [hdigit,halpha]

namespace Token.Kind.Takes
variable {front piece back : List Char} {kind : Token.Kind}

lemma ne_finish (h : kind.Takes front piece back) : kind ≠ .finish := by
  cases h <;> simp

lemma size_pos (h : kind.Takes front piece back) : 0 < Text.size piece := by
  have hpos : ∀ {cs : List Char}, cs ≠ [] → 0 < Text.size cs := by
    intro cs hne
    obtain ⟨c,cs,rfl⟩ := List.exists_cons_of_ne_nil hne
    have := c.utf8Size_pos
    rw [Text.size_cons]
    omega
  apply hpos
  cases h with
  | number hne => exact hne
  | name hne => simp [hne]
  | plus | minus | unknown => simp

/-- No white space is inside a token. -/
lemma not_isBlank (h : kind.Takes front piece back) : ∀ c ∈ piece, Text.isBlank c = false := by
  cases h with
  | number _ hdigits => exact fun c hc => not_isBlank_of_isDigit (hdigits c hc)
  | name _ hletters hdigits =>
    intro c hc
    rcases List.mem_append.mp hc with hc | hc
    · exact not_isBlank_of_isAlpha (hletters c hc)
    · exact not_isBlank_of_isDigit (hdigits c hc)
  | plus | minus => exact List.forall_mem_singleton.mpr rfl
  | unknown hblank => simpa using hblank

/-- What a token takes in is not continued behind it. -/
lemma apart (h : kind.Takes front piece back) : Apart (front ++ piece) back := by
  cases h with
  | number hne hdigits _ hback =>
    intro c hc d hd
    rw [List.getLast?_append_of_ne_nil _ hne] at hc
    have hc := hdigits c (List.mem_of_getLast? hc)
    exact ⟨fun _ => hback d hd,fun h => by simp [isAlpha_of_isDigit hc] at h⟩
  | @name letters digits _ hne hletters hdigits _ hback =>
    intro c hc d hd
    obtain ⟨hdigit,halpha⟩ := hback d hd
    refine ⟨fun _ => hdigit,fun h => ⟨hdigit,halpha ?_⟩⟩
    by_contra hdne
    rw [List.getLast?_append_of_ne_nil _ (by simp [hne]),List.getLast?_append_of_ne_nil _ hdne] at hc
    simp [isAlpha_of_isDigit (hdigits c (List.mem_of_getLast? hc))] at h
  | plus | minus => exact apart_of_single front back (by decide) (by decide)
  | unknown _ _ _ hdigit halpha => exact apart_of_single front back hdigit halpha

end Token.Kind.Takes

/-- The first token of a text is as long as it can be. -/
theorem takes_first {front rest : List Char} {c : Char} (hblank : Text.isBlank c = false)
    (h : Apart front (c::rest)) :
    (Lexeme.first c rest).kind.Takes front (Lexeme.first c rest).text (Lexeme.first c rest).rest := by
  unfold Lexeme.first
  split_ifs with hplus hminus hdigit halpha
  · subst hplus
    exact .plus
  · subst hminus
    exact .minus
  · refine .number (by simp) (List.forall_mem_cons.mpr ⟨hdigit,(takeWhile_spec _ _).1⟩)
      (fun d hd => ?_) (takeWhile_spec _ _).2
    obtain ⟨hd1,hd2⟩ := h d hd c rfl
    constructor
    · by_contra hdd
      simp [hd1 (by simpa using hdd)] at hdigit
    · by_contra hda
      simp [(hd2 (by simpa using hda)).1] at hdigit
  · let behind := rest.dropWhile Char.isAlpha
    have hback : ∀ d ∈ (behind.dropWhile Char.isDigit).head?,
        d.isDigit = false ∧ (behind.takeWhile Char.isDigit = [] → d.isAlpha = false) := by
      refine fun d hd => ⟨(takeWhile_spec _ _).2 d hd,fun hnil => ?_⟩
      have hkeep := List.takeWhile_append_dropWhile (p := Char.isDigit) (l := behind)
      rw [hnil,List.nil_append] at hkeep
      rw [hkeep] at hd
      exact (takeWhile_spec _ _).2 d hd
    refine @Token.Kind.Takes.name front (c::rest.takeWhile Char.isAlpha) _ _ (by simp)
      (List.forall_mem_cons.mpr ⟨halpha,(takeWhile_spec _ _).1⟩) (takeWhile_spec _ _).1
      (fun d hd => ?_) hback
    by_contra hda
    simp [((h d hd c rfl).2 (by simpa using hda)).2] at halpha
  · exact .unknown hblank hplus hminus (by simpa using hdigit) (by simpa using halpha)

/-- Tokens laid over the rest of a text, behind what stands in front of it. White space is passed
over, each token takes its piece, and a mark comes at the end. -/
inductive Tiled : List Char → List Char → List Token → Prop
  | finish (front : List Char) :
      Tiled front [] [⟨.finish,⟨Text.size front,Text.size front⟩,[]⟩]
  | blank {front cs : List Char} {c : Char} {ts : List Token} (hc : Text.isBlank c = true)
      (h : Tiled (front ++ [c]) cs ts) : Tiled front (c::cs) ts
  | token {front piece back : List Char} {kind : Token.Kind} {ts : List Token}
      (ht : kind.Takes front piece back) (h : Tiled (front ++ piece) back ts) :
      Tiled front (piece ++ back)
        (⟨kind,⟨Text.size front,Text.size front+Text.size piece⟩,piece⟩ :: ts)

theorem tiled_tokensFrom {front cs : List Char} (h : Apart front cs) :
    Tiled front cs (tokensFrom (Text.size front) cs) := by
  induction hn : cs.length using Nat.strong_induction_on generalizing front cs with
  | _ n ih =>
  subst hn
  cases cs with
  | nil =>
    rw [tokensFrom_nil]
    exact .finish front
  | cons c cs =>
    by_cases hblank : Text.isBlank c = true
    · have hc : c.isDigit = false ∧ c.isAlpha = false := by
        rw [Bool.eq_false_iff,Bool.eq_false_iff,ne_eq,ne_eq,← charKind_eq_digit,
          ← charKind_eq_letter,charKind_of_isBlank hblank]
        simp
      have := ih cs.length (by simp) (apart_of_single front cs hc.1 hc.2) rfl
      rw [Text.size_append,Text.size_cons,Text.size_nil,add_zero] at this
      rw [tokensFrom,if_pos hblank]
      exact .blank hblank this
    · have hblank : Text.isBlank c = false := by simpa using hblank
      have htakes := takes_first hblank h
      have := ih _ (Nat.lt_succ_of_le (Lexeme.length_rest_le c cs)) htakes.apart rfl
      rw [Text.size_append] at this
      rw [tokensFrom_cons hblank]
      conv => arg 2; rw [← Lexeme.text_append_rest c cs]
      exact .token htakes this

namespace Tiled
variable {front cs : List Char} {ts : List Token}

lemma size_le_start (h : Tiled front cs ts) : ∀ t ∈ ts, Text.size front ≤ t.span.start := by
  induction h with
  | finish front => simp
  | blank hc h ih =>
    intro t ht
    have := ih t ht
    rw [Text.size_append] at this
    omega
  | token ht h ih =>
    refine List.forall_mem_cons.mpr ⟨le_rfl,fun t ht => ?_⟩
    have := ih t ht
    rw [Text.size_append] at this
    omega

lemma exists_finish (h : Tiled front cs ts) : ∃ init,
    ts = init ++ [⟨.finish,⟨Text.size (front ++ cs),Text.size (front ++ cs)⟩,[]⟩] ∧
      ∀ t ∈ init, t.kind ≠ .finish ∧ t.span.start < t.span.stop := by
  induction h with
  | finish front => exact ⟨[],by simp,by simp⟩
  | blank hc h ih => simpa using ih
  | token ht h ih =>
    obtain ⟨init,hts,hinit⟩ := ih
    refine ⟨_::init,by rw [hts,List.append_assoc,List.cons_append],
      List.forall_mem_cons.mpr ⟨⟨ht.ne_finish,?_⟩,hinit⟩⟩
    have := ht.size_pos
    dsimp only
    omega

lemma ordered (h : Tiled front cs ts) :
    ts.Pairwise fun t u => t.span.start < u.span.start ∧ t.span.stop ≤ u.span.start := by
  induction h with
  | finish front => simp
  | blank hc h ih => exact ih
  | token ht h ih =>
    refine List.pairwise_cons.mpr ⟨fun t hmem => ?_,ih⟩
    have hle := h.size_le_start t hmem
    have := ht.size_pos
    rw [Text.size_append] at hle
    dsimp only
    omega

lemma standsAt (h : Tiled front cs ts) : ∀ t ∈ ts, Text.StandsAt (front ++ cs) t.span t.text := by
  induction h with
  | finish front => simpa using ⟨front,[],by simp⟩
  | blank hc h ih => simpa using ih
  | @token front piece back kind ts ht h ih =>
    refine List.forall_mem_cons.mpr ⟨⟨front,back,by simp,rfl,rfl⟩,?_⟩
    simpa using ih

lemma takes (h : Tiled front cs ts) : ∀ t ∈ ts, t.kind ≠ .finish →
    ∃ front' back, front ++ cs = front' ++ t.text ++ back ∧ Text.size front' = t.span.start ∧
      t.kind.Takes front' t.text back := by
  induction h with
  | finish front => simp
  | blank hc h ih => simpa using ih
  | @token front piece back kind ts ht h ih =>
    refine List.forall_mem_cons.mpr ⟨fun _ => ⟨front,back,by simp,rfl,ht⟩,?_⟩
    simpa using ih

/-- A character is white space exactly if no token lies over it. -/
lemma isBlank_iff (h : Tiled front cs ts) {before behind : List Char} {c : Char}
    (hcs : cs = before ++ c::behind) : Text.isBlank c = true ↔
      ∀ t ∈ ts, ¬ t.span.Covers (Text.size front+Text.size before) := by
  induction h generalizing before with
  | finish front => simp at hcs
  | @blank front cs d ts hd h ih =>
    cases before with
    | nil =>
      obtain ⟨rfl,rfl⟩ := List.cons.inj hcs
      refine iff_of_true hd fun t ht hcover => ?_
      have hle := h.size_le_start t ht
      have := d.utf8Size_pos
      rw [Text.size_append,Text.size_cons] at hle
      have := hcover.1
      rw [Text.size_nil] at this
      omega
    | cons b before =>
      obtain ⟨rfl,rfl⟩ := List.cons.inj hcs
      rw [ih rfl,Text.size_append,Text.size_cons,Text.size_cons,Text.size_nil,add_zero,add_assoc]
  | @token front piece back kind ts ht h ih =>
    rw [List.forall_mem_cons,Span.covers_iff]
    obtain ⟨further,hpiece,hback⟩ | ⟨further,hpiece,hback⟩ := List.append_eq_append_iff.mp hcs
    · have hsize : Text.size before = Text.size piece+Text.size further := by
        rw [hpiece,Text.size_append]
      rw [ih hback,and_iff_right (by omega),hsize,Text.size_append,add_assoc]
    · have hsize : Text.size piece = Text.size before+Text.size further := by
        rw [hpiece,Text.size_append]
      cases further with
      | nil =>
        rw [Text.size_nil] at hsize
        rw [@ih [] hback.symm,and_iff_right (by omega),Text.size_append,hsize]
        rfl
      | cons d further =>
        obtain ⟨rfl,rfl⟩ := List.cons.inj hback
        have hblank := ht.not_isBlank c (by simp [hpiece])
        have := c.utf8Size_pos
        rw [Text.size_cons] at hsize
        exact iff_of_false (by simp [hblank]) fun hout => hout.1 (by omega)

end Tiled

/-- The tokens of a text tile it. -/
theorem tokens_tile (source : String) : Tiling source.toList (tokens source) := by
  have h : Tiled [] source.toList (tokens source) := tiled_tokensFrom fun c hc => by simp at hc
  refine ⟨h.exists_finish,h.ordered,h.standsAt,h.takes,fun front c back hsource => ?_⟩
  rw [h.isBlank_iff hsource,Text.size_nil,zero_add]

end Formula

end LinProg
