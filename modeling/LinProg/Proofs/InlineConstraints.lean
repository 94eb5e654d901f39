import LinProg.Problem.Inline
import LinProg.Proofs.Padding

/-!
Constraints entered as one text. The comparisons are not looked for from left to right, but neither
an expression nor a number has the characters that they are written with. So a text that is accepted
has one comparison, and there is only one way to cut it there.
-/
namespace LinProg

namespace Inline

/-- A character that comparisons are written with. -/
def isMark (c : Char) : Bool := operators.any fun op => op.1.contains c

def Plain (cs : List Char) : Prop := ∀ c ∈ cs, isMark c = false

lemma isMark_of_mem {op : List Char × Relation} (hop : op ∈ operators) {c : Char} (hc : c ∈ op.1) :
    isMark c = true := List.any_eq_true.mpr ⟨op,hop,List.contains_iff_mem.mpr hc⟩

lemma not_isMark {c : Char} (h : ∀ op ∈ operators, c ∉ op.1) : isMark c = false := by
  rw [isMark,List.any_eq_false]
  exact fun op hop hc => h op hop (List.contains_iff_mem.mp hc)

@[simp] lemma plain_nil : Plain [] := by simp [Plain]

@[simp] lemma plain_cons {c : Char} {cs : List Char} :
    Plain (c::cs) ↔ isMark c = false ∧ Plain cs := List.forall_mem_cons

@[simp] lemma plain_append {cs ds : List Char} : Plain (cs ++ ds) ↔ Plain cs ∧ Plain ds :=
  List.forall_mem_append

/-- A kind of characters that no comparison is written with. -/
lemma not_isMark_of_charKind {c : Char} (h : Formula.charKind c ≠ .other) : isMark c = false := by
  have hother : (operators.all fun op => op.1.all fun d => Formula.charKind d = .other) = true := by
    decide
  simp only [List.all_eq_true,decide_eq_true_eq] at hother
  exact not_isMark fun op hop hc => h (hother op hop c hc)

lemma plain_blanks (b : Formula.Blanks) : Plain b.chars := by
  intro c hc
  refine not_isMark_of_charKind ?_
  rw [b.charKind c hc]
  simp

lemma plain_of_isDigit {cs : List Char} (h : ∀ c ∈ cs, c.isDigit = true) : Plain cs := by
  intro c hc
  refine not_isMark_of_charKind ?_
  rw [Formula.charKind_of_isDigit (h c hc)]
  simp

end Inline

open Inline

namespace Formula

lemma Stage.plain_of_stuckAt? {st : Stage} {cs : List Char} (h : st.stuckAt? cs = none) :
    Plain cs := by
  induction cs generalizing st with
  | nil => exact plain_nil
  | cons c cs ih =>
    obtain ⟨st',hn,h⟩ := stuckAt?_cons_eq_none.mp h
    refine plain_cons.mpr ⟨not_isMark_of_charKind fun hk => ?_,ih h⟩
    rw [hk] at hn
    cases st <;> contradiction

/-- An expression has no comparison in it. -/
theorem plain_of_read {K : Type} [Scalar K] {cs : List Char} {r : Registry} {e : Equation K}
    (h : read (String.ofList cs) r = .ok e) : Plain cs := by
  obtain ⟨terms,hparse,-⟩ := Except.bind_eq_ok.mp h
  have hstuck := accepts_iff.mp ⟨terms,hparse⟩
  rw [String.toList_ofList] at hstuck
  exact Stage.plain_of_stuckAt? hstuck

end Formula

namespace Decimal
variable {cs : List Char}

lemma plain_of_splitSign (h : Plain (splitSign cs).2) : Plain cs := by
  unfold splitSign at h
  split at h
  case h_1 | h_2 => exact plain_cons.mpr ⟨rfl,h⟩
  case h_3 => exact h

lemma plain_of_exponent? {e : ℤ} (h : exponent? cs = some e) : Plain cs := by
  cases cs with
  | nil => exact plain_nil
  | cons c rest =>
    simp only [exponent?] at h
    split at h
    case isTrue hc =>
      simp only [Bool.and_eq_true,Bool.or_eq_true,beq_iff_eq] at hc
      obtain ⟨⟨hc,-⟩,hdigits⟩ := hc
      refine plain_cons.mpr ⟨?_,plain_of_splitSign (plain_of_isDigit (List.all_eq_true.mp hdigits))⟩
      rcases hc with rfl | rfl <;> rfl
    case isFalse => contradiction

lemma plain_of_unsigned? {x : Float} (h : unsigned? cs = some x) : Plain cs := by
  have hdigits : ∀ ds : List Char, Plain (ds.takeWhile Char.isDigit) := fun ds =>
    plain_of_isDigit (List.all_eq_true.mp List.all_takeWhile)
  have hafter : ∀ ds : List Char, Plain (ds.dropWhile Char.isDigit) → Plain ds := by
    intro ds hds
    rw [← List.takeWhile_append_dropWhile (p := Char.isDigit) (l := ds),plain_append]
    exact ⟨hdigits ds,hds⟩
  have hexponent : ∀ {empty : Bool} {rest : List Char} {value : ℤ → Float},
      (if empty = true then none else (exponent? rest).map value) = some x → Plain rest := by
    intro empty rest value hx
    split at hx
    case isTrue => contradiction
    case isFalse =>
      obtain ⟨e,he,-⟩ := Option.map_eq_some_iff.mp hx
      exact plain_of_exponent? he
  refine hafter cs ?_
  unfold unsigned? at h
  dsimp only at h
  split at h
  case h_1 tail hpoint =>
    rw [hpoint]
    exact plain_cons.mpr ⟨rfl,hafter tail (hexponent h)⟩
  case h_2 => exact hexponent h

/-- The name of a special value, whatever its letter case. -/
lemma exists_name {x : Float} (h : named? cs = some x) :
    ∃ name ∈ ["inf","infinity","nan"], String.ofList (cs.map Char.toLower) = name := by
  simp only [named?] at h
  split at h
  case isTrue hinf => rcases hinf with hinf | hinf <;> exact ⟨_,by simp,hinf⟩
  case isFalse =>
    split at h
    case isTrue hnan => exact ⟨_,by simp,hnan⟩
    case isFalse => contradiction

lemma plain_of_named? {x : Float} (h : named? cs = some x) : Plain cs := by
  obtain ⟨name,hname,hlower⟩ := exists_name h
  have hnames : (["inf","infinity","nan"].all fun name => operators.all fun op =>
      op.1.all fun c => !name.toList.contains c.toLower) = true := by decide
  simp only [List.all_eq_true,Bool.not_eq_true',List.contains_eq_mem,
    decide_eq_false_iff_not] at hnames
  intro c hc
  refine not_isMark fun op hop hmark => hnames name hname op hop c hmark ?_
  rw [← hlower,String.toList_ofList]
  exact List.mem_map_of_mem hc

/-- A number has no comparison in it. -/
theorem plain_of_read? {x : Float} (h : read? cs = some x) : Plain cs := by
  obtain ⟨y,hy,-⟩ : ∃ y, ((named? (splitSign cs).2).orElse fun _ => unsigned? (splitSign cs).2) =
      some y ∧ _ := Option.map_eq_some_iff.mp h
  refine plain_of_splitSign ?_
  cases hnamed : named? (splitSign cs).2 with
  | some z => exact plain_of_named? hnamed
  | none =>
    rw [hnamed] at hy
    exact plain_of_unsigned? hy

end Decimal

namespace Inline

section Split
variable {mark left right text : List Char}

lemma eq_of_splitAt? (h : splitAt? mark text = some (left,right)) :
    text = left ++ mark ++ right := by
  induction text generalizing left with
  | nil =>
    rw [splitAt?] at h
    split at h
    case isTrue hempty =>
      cases h
      rw [List.isEmpty_iff.mp hempty]
      rfl
    case isFalse => contradiction
  | cons c cs ih =>
    rw [splitAt?] at h
    split at h
    case isTrue hprefix =>
      cases h
      exact (List.prefix_iff_eq_append.mp (List.isPrefixOf_iff_prefix.mp hprefix)).symm
    case isFalse =>
      obtain ⟨⟨front,back⟩,hsplit,heq⟩ := Option.map_eq_some_iff.mp h
      cases heq
      rw [ih hsplit]
      rfl

/-- A mark is not found in a text that lacks one of its characters. -/
lemma splitAt?_eq_none {c : Char} (hc : c ∈ mark) (h : c ∉ text) : splitAt? mark text = none := by
  rw [Option.eq_none_iff_forall_ne_some]
  rintro ⟨left,right⟩ hsome
  refine h ?_
  rw [eq_of_splitAt? hsome]
  simp [hc]

/-- A mark is found where it stands if its first character does not occur before. -/
lemma splitAt?_append {c : Char} {rest : List Char} (h : c ∉ left) :
    splitAt? (c::rest) (left ++ (c::rest) ++ right) = some (left,right) := by
  induction left with
  | nil => simp [splitAt?]
  | cons d left ih =>
    obtain ⟨hne,hleft⟩ : c ≠ d ∧ c ∉ left := by simpa using h
    rw [List.cons_append,List.cons_append,splitAt?,if_neg,ih hleft]
    · rfl
    · simp [hne]

/-- Before a mark is looked for, the text has been searched for all that it is a part of. -/
lemma pairwise_operators : operators.Pairwise fun earlier op => ∃ c ∈ earlier.1, c ∉ op.1 := by
  simp [operators]

lemma exists_of_split? {relation : Relation} (h : split? text = some (left,relation,right)) :
    ∃ op ∈ operators, op.2 = relation ∧ text = left ++ op.1 ++ right := by
  obtain ⟨op,hop,hsome⟩ := List.exists_of_findSome?_eq_some h
  obtain ⟨⟨front,back⟩,hsplit,heq⟩ := Option.map_eq_some_iff.mp hsome
  cases heq
  exact ⟨op,hop,rfl,eq_of_splitAt? hsplit⟩

/-- A single comparison is found, and the text is cut there: what is looked for earlier has a
character that neither side nor the mark itself has. -/
theorem split?_append {op : List Char × Relation} (hop : op ∈ operators) (hl : Plain left)
    (hr : Plain right) : split? (left ++ op.1 ++ right) = some (left,op.2,right) := by
  have hplain : ∀ {c cs}, isMark c = true → Plain cs → c ∉ cs := by
    intro c cs hc hcs hmem
    rw [hcs c hmem] at hc
    contradiction
  obtain ⟨before,after,hoperators⟩ := List.append_of_mem hop
  refine List.findSome?_eq_some_iff.mpr ⟨before,op,after,hoperators,?_,fun earlier he => ?_⟩
  · have hne : ∀ op ∈ operators, op.1 ≠ [] := by decide
    obtain ⟨c,rest,hmark⟩ := List.exists_cons_of_ne_nil (hne op hop)
    have hc : isMark c = true := isMark_of_mem hop (by simp [hmark])
    rw [hmark,splitAt?_append (hplain hc hl)]
    rfl
  · have hpairs := hoperators ▸ pairwise_operators
    obtain ⟨c,hc,hcop⟩ := (List.pairwise_append.mp hpairs).2.2 earlier he op List.mem_cons_self
    have hmark : isMark c = true :=
      isMark_of_mem (hoperators ▸ List.mem_append_left _ he) hc
    rw [splitAt?_eq_none hc]
    · rfl
    · simp [hplain hmark hl,hplain hmark hr,hcop]

end Split

/-- A way to read a text as a constraint. -/
structure Decomposition where
  left : List Char
  operator : List Char × Relation
  right : List Char
  equation : Equation Float
  number : Float

namespace Decomposition

/-- The text is an expression over the variables, a comparison and a number, perhaps with white
space around the number. -/
structure Of (d : Decomposition) (text : String) (r : Registry) : Prop where
  operator : d.operator ∈ operators
  text : text.toList = d.left ++ d.operator.1 ++ d.right
  equation : Formula.read (String.ofList d.left) r = .ok d.equation
  number : Decimal.read? (Text.trim d.right) = some d.number

def condition (d : Decomposition) : Condition Float where
  lhs := String.ofList (Text.trim d.left)
  relation := d.operator.2
  rhs := d.number

variable {d d' : Decomposition} {text : String} {r : Registry}

lemma Of.plain_left (h : d.Of text r) : Plain d.left := Formula.plain_of_read h.equation

lemma Of.plain_right (h : d.Of text r) : Plain d.right := by
  obtain ⟨front,back,hright⟩ := Formula.exists_trim d.right
  rw [hright,plain_append,plain_append]
  exact ⟨⟨plain_blanks front,Decimal.plain_of_read? h.number⟩,plain_blanks back⟩

lemma Of.split? (h : d.Of text r) :
    Inline.split? text.toList = some (d.left,d.operator.2,d.right) := by
  rw [h.text,split?_append h.operator h.plain_left h.plain_right]

/-- The characters of comparisons in the text are those of the one comparison. -/
lemma Of.filter_isMark (h : d.Of text r) : text.toList.filter isMark = d.operator.1 := by
  have hnone : ∀ {cs : List Char}, Plain cs → cs.filter isMark = [] := fun hcs =>
    List.filter_eq_nil_iff.mpr fun c hc => by simp [hcs c hc]
  rw [h.text,List.filter_append,List.filter_append,hnone h.plain_left,hnone h.plain_right,
    List.nil_append,List.append_nil,List.filter_eq_self]
  exact fun c hc => isMark_of_mem h.operator hc

lemma Of.unique (h : d.Of text r) (h' : d'.Of text r) : d = d' := by
  have hsides := Option.some.inj (h.split?.symm.trans h'.split?)
  simp only [Prod.mk.injEq] at hsides
  obtain ⟨hleft,hrelation,hright⟩ := hsides
  have hoperator := Prod.ext (h.filter_isMark.symm.trans h'.filter_isMark) hrelation
  have hequation := h.equation
  rw [hleft,h'.equation] at hequation
  have hnumber := h.number
  rw [hright,h'.number] at hnumber
  cases d
  cases d'
  simp_all

end Decomposition

lemma condition_of {d : Decomposition} {text : String} {r : Registry} (h : d.Of text r) :
    condition text = .ok d.condition := by
  unfold condition
  rw [h.split?]
  dsimp only
  rw [h.number]
  rfl

lemma exists_of_condition {text : String} {r : Registry} {c : Condition Float} {e : Equation Float}
    (h : condition text = .ok c) (he : Formula.read c.lhs r = .ok e) :
    ∃ d : Decomposition, d.Of text r ∧ d.condition = c ∧ d.equation = e := by
  unfold condition at h
  split at h
  case h_1 => contradiction
  case h_2 left relation right hsplit =>
    dsimp only at h
    split at h
    case h_1 => contradiction
    case h_2 number hnumber =>
      obtain rfl := Except.ok.inj h
      obtain ⟨op,hop,rfl,htext⟩ := exists_of_split? hsplit
      have hread := (Formula.read_trim r e left).mp he
      exact ⟨⟨left,op,right,e,number⟩,⟨hop,htext,hread,hnumber⟩,rfl,rfl⟩

/-- A text is accepted as a constraint over the variables exactly if it is an expression, a
comparison and a number. These are then unique, and the text has no further part of a comparison. -/
theorem condition_reads_once (text : String) (r : Registry) :
    (∀ c e, condition text = .ok c ∧ Formula.read c.lhs r = .ok e ↔
      ∃ d : Decomposition, d.Of text r ∧ d.condition = c ∧ d.equation = e) ∧
    (∀ d d' : Decomposition, d.Of text r → d'.Of text r → d = d') ∧
    ∀ d : Decomposition, d.Of text r → text.toList.filter isMark = d.operator.1 := by
  refine ⟨fun c e => ⟨fun ⟨hc,he⟩ => exists_of_condition hc he,?_⟩,fun d d' h h' => h.unique h',
    fun d h => h.filter_isMark⟩
  rintro ⟨d,h,rfl,rfl⟩
  exact ⟨condition_of h,(Formula.read_trim r d.equation d.left).mpr h.equation⟩

/-- Of two comparisons the text is cut at the one that is looked for first. The other one stays in
the expression, which then cannot be read. -/
example : split? "X1 = 2 <= 3".toList = some ("X1 = 2 ".toList,.atMost," 3".toList) := by decide

end Inline

end LinProg
