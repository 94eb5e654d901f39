import LinProg.Proofs.Compiled

/-!
The errors of compiling a problem. A problem can give cause for many at once. They have a fixed
order, in which the first one is reported; a problem without any compiles.
-/
namespace LinProg

namespace Except
variable {ε α β : Type} {x : Except ε α} {es es' : List ε}

/-- The computation fails with the first of the errors, if there are any. -/
def Reports (x : Except ε α) (es : List ε) : Prop := failure? x = es.head?

/-- What comes later can only report if nothing before it does. -/
lemma Reports.bind {f : α → Except ε β} (hx : Reports x es) (hf : ∀ a, Reports (f a) es') :
    Reports (x >>= f) (es ++ es') := by
  unfold Reports at hx
  cases x with
  | error e =>
    obtain ⟨rest,rfl⟩ := List.head?_eq_some_iff.mp hx.symm
    rfl
  | ok a =>
    obtain rfl := List.head?_eq_none_iff.mp hx.symm
    exact hf a

lemma Reports.bind_pure {f : α → β} (hx : Reports x es) :
    Reports (x >>= fun a => pure (f a)) es := by
  cases x <;> exact hx

end Except

namespace CompileError

/-- The place of an error in the order of the checks, compared lexicographically. All constraints
are checked before the first text is read. -/
def place : CompileError → List ℕ
  | noVariables => [0]
  | emptyObjective => [1]
  | emptyConstraint number => [2,number,0]
  | nonFiniteRhs number => [2,number,1]
  | parse .objective _ => [3]
  | parse (.constraint number) _ => [4,number]

def given (cause : Prop) [Decidable cause] (e : CompileError) : List CompileError :=
  if cause then [e] else []

@[simp] lemma mem_given {cause : Prop} [Decidable cause] {e e' : CompileError} :
    e' ∈ given cause e ↔ cause ∧ e' = e := by
  unfold given
  split <;> simp_all

def Sorted (es : List CompileError) : Prop := es.Pairwise fun e e' => e.place < e'.place

lemma sorted_given (cause : Prop) [Decidable cause] (e : CompileError) :
    Sorted (given cause e) := by
  unfold given Sorted
  split <;> simp

lemma sorted_append {es es' : List CompileError} : Sorted (es ++ es') ↔
    Sorted es ∧ Sorted es' ∧ ∀ e ∈ es, ∀ e' ∈ es', e.place < e'.place := List.pairwise_append

/-- What is listed item by item stands in the order of the numbers. -/
lemma sorted_flatMap {α : Type} {f : α × ℕ → List CompileError} (hf : ∀ c, Sorted (f c))
    (hlt : ∀ c c', c.2 < c'.2 → ∀ e ∈ f c, ∀ e' ∈ f c', e.place < e'.place) (l : List α) :
    Sorted ((l.zipIdx 1).flatMap f) := by
  refine List.pairwise_flatMap.mpr ⟨fun c _ => hf c,?_⟩
  have hnumbers : (l.zipIdx 1).Pairwise fun c c' => c.2 < c'.2 := by
    refine List.pairwise_map.mp ?_
    rw [List.zipIdx_map_snd]
    exact List.pairwise_lt_range'
  exact hnumbers.imp fun h => hlt _ _ h

/-- The first of sorted errors comes before all others. -/
lemma Sorted.head?_eq_some {es : List CompileError} (h : Sorted es) {e : CompileError} :
    es.head? = some e ↔ e ∈ es ∧ ∀ e' ∈ es, e' = e ∨ e.place < e'.place := by
  cases es with
  | nil => simp
  | cons first rest =>
    obtain ⟨hfirst,-⟩ := List.pairwise_cons.mp h
    constructor
    · rintro ⟨⟩
      refine ⟨List.mem_cons_self,fun e' he' => ?_⟩
      exact (List.mem_cons.mp he').imp_right (hfirst e')
    · rintro ⟨he,hleast⟩
      rcases List.mem_cons.mp he with rfl | he
      · rfl
      · rcases hleast first List.mem_cons_self with rfl | hlt
        · rfl
        · exact absurd hlt (lt_asymm (hfirst e he))

end CompileError

namespace Problem
variable {K : Type} [Scalar K]
open CompileError

def HasText (text : String) : Prop := ∃ c ∈ text.toList, Text.isBlank c = false

lemma not_hasText {text : String} : ¬ HasText text ↔ isEmptyText text = true := by
  simp [HasText,isEmptyText]

def reading (problem : Problem K) (stem text : String) : Except Formula.ParseError (Equation K) :=
  Formula.read text (.numbered stem problem.variableCount)

/-- The errors that a problem gives cause for, each on its own. -/
inductive Fault (problem : Problem K) (stem : String) : CompileError → Prop
  | noVariables (h : problem.variableCount = 0) : Fault problem stem .noVariables
  | emptyObjective (h : ¬ HasText problem.objective) : Fault problem stem .emptyObjective
  | emptyConstraint {c : Condition K} {number : ℕ} (hc : (c,number) ∈ problem.constraints.zipIdx 1)
      (h : ¬ HasText c.lhs) : Fault problem stem (.emptyConstraint number)
  | nonFiniteRhs {c : Condition K} {number : ℕ} (hc : (c,number) ∈ problem.constraints.zipIdx 1)
      (h : Scalar.isFinite c.rhs = false) : Fault problem stem (.nonFiniteRhs number)
  | objective {source : Formula.ParseError}
      (h : problem.reading stem problem.objective = .error source) :
      Fault problem stem (.parse .objective source)
  | constraint {c : Condition K} {number : ℕ} {source : Formula.ParseError}
      (hc : (c,number) ∈ problem.constraints.zipIdx 1)
      (h : problem.reading stem c.lhs = .error source) :
      Fault problem stem (.parse (.constraint number) source)

/-- An error with a location is about the text there. -/
theorem Fault.textAt? {problem : Problem K} {stem : String} {e : CompileError}
    (h : problem.Fault stem e) {location : Location} (hl : e.location? = some location) :
    ∃ text, problem.textAt? location = some text ∧
      ∀ source, e = .parse location source → problem.reading stem text = .error source := by
  have hat : ∀ {c : Condition K} {number : ℕ}, (c,number) ∈ problem.constraints.zipIdx 1 →
      problem.textAt? (.constraint number) = some c.lhs := by
    intro c number hc
    rw [Problem.textAt?,(List.mk_mem_zipIdx_iff_le_and_getElem?_sub.mp hc).2,Option.map_some]
  cases h with
  | noVariables => cases hl
  | emptyObjective =>
    cases hl
    exact ⟨_,rfl,nofun⟩
  | emptyConstraint hc | nonFiniteRhs hc =>
    cases hl
    exact ⟨_,hat hc,nofun⟩
  | objective h =>
    cases hl
    refine ⟨_,rfl,?_⟩
    rintro _ ⟨⟩
    exact h
  | constraint hc h =>
    cases hl
    refine ⟨_,hat hc,?_⟩
    rintro _ ⟨⟩
    exact h

/-- A problem with variables, texts that can be read over them, and finite bounds. -/
structure Valid (problem : Problem K) (stem : String) : Prop where
  variableCount : 1 ≤ problem.variableCount
  objective : HasText problem.objective ∧ ∃ e, problem.reading stem problem.objective = .ok e
  constraints : ∀ c ∈ problem.constraints,
    HasText c.lhs ∧ Scalar.isFinite c.rhs = true ∧ ∃ e, problem.reading stem c.lhs = .ok e

/-- The causes for errors in a constraint, apart from those of reading it. -/
def conditionFaults (c : Condition K × ℕ) : List CompileError :=
  given (isEmptyText c.1.lhs) (.emptyConstraint c.2) ++
    given (Scalar.isFinite c.1.rhs = false) (.nonFiniteRhs c.2)

variable (problem : Problem K) (stem : String)

def readingFaults (location : Location) (text : String) : List CompileError :=
  (Except.failure? (problem.reading stem text)).toList.map (.parse location)

def checkFaults : List CompileError :=
  given (problem.variableCount = 0) .noVariables ++
  (given (isEmptyText problem.objective) .emptyObjective ++
  (problem.constraints.zipIdx 1).flatMap conditionFaults)

/-- All errors that the problem gives cause for, in their order. -/
def faults : List CompileError :=
  problem.checkFaults ++
  (problem.readingFaults stem .objective problem.objective ++
  (problem.constraints.zipIdx 1).flatMap fun c =>
    problem.readingFaults stem (.constraint c.2) c.1.lhs)

variable {problem stem}

lemma mem_readingFaults {location : Location} {text : String} {e : CompileError} :
    e ∈ problem.readingFaults stem location text ↔
      ∃ source, problem.reading stem text = .error source ∧ .parse location source = e := by
  simp [readingFaults,Except.failure?_eq_some]

theorem mem_faults {e : CompileError} : e ∈ problem.faults stem ↔ problem.Fault stem e := by
  simp only [faults,checkFaults,conditionFaults,List.mem_append,List.mem_flatMap,mem_readingFaults,
    mem_given,← not_hasText]
  constructor
  · rintro ((⟨h,rfl⟩ | ⟨h,rfl⟩ | ⟨c,hc,⟨h,rfl⟩ | ⟨h,rfl⟩⟩) | ⟨source,h,rfl⟩ | ⟨c,hc,source,h,rfl⟩)
    · exact .noVariables h
    · exact .emptyObjective h
    · exact .emptyConstraint hc h
    · exact .nonFiniteRhs hc h
    · exact .objective h
    · exact .constraint hc h
  · intro h
    cases h with
    | noVariables h => exact .inl (.inl ⟨h,rfl⟩)
    | emptyObjective h => exact .inl (.inr (.inl ⟨h,rfl⟩))
    | emptyConstraint hc h => exact .inl (.inr (.inr ⟨_,hc,.inl ⟨h,rfl⟩⟩))
    | nonFiniteRhs hc h => exact .inl (.inr (.inr ⟨_,hc,.inr ⟨h,rfl⟩⟩))
    | objective h => exact .inr (.inl ⟨_,h,rfl⟩)
    | constraint hc h => exact .inr (.inr ⟨_,hc,_,h,rfl⟩)

lemma sorted_readingFaults (location : Location) (text : String) :
    Sorted (problem.readingFaults stem location text) := by
  unfold readingFaults
  cases Except.failure? (problem.reading stem text) <;> simp [Sorted]

lemma sorted_conditionFaults (c : Condition K × ℕ) : Sorted (conditionFaults c) := by
  refine sorted_append.mpr ⟨sorted_given ..,sorted_given ..,?_⟩
  simp [place,List.cons_lt_cons_iff]

lemma sorted_checkFaults : Sorted problem.checkFaults := by
  refine sorted_append.mpr ⟨sorted_given ..,sorted_append.mpr ⟨sorted_given ..,?_,?_⟩,?_⟩
  · refine sorted_flatMap sorted_conditionFaults (fun c c' hlt e he e' he' => ?_) _
    simp only [conditionFaults,List.mem_append,mem_given] at he he'
    rcases he with ⟨-,rfl⟩ | ⟨-,rfl⟩ <;> rcases he' with ⟨-,rfl⟩ | ⟨-,rfl⟩ <;>
      simp [place,List.cons_lt_cons_iff,hlt]
  · simp only [conditionFaults,List.mem_flatMap,List.mem_append,mem_given]
    rintro _ ⟨-,rfl⟩ _ ⟨c,-,⟨-,rfl⟩ | ⟨-,rfl⟩⟩ <;> simp [place,List.cons_lt_cons_iff]
  · simp only [conditionFaults,List.mem_flatMap,List.mem_append,mem_given]
    rintro _ ⟨-,rfl⟩ _ (⟨-,rfl⟩ | ⟨c,-,⟨-,rfl⟩ | ⟨-,rfl⟩⟩) <;> simp [place,List.cons_lt_cons_iff]

theorem sorted_faults : Sorted (problem.faults stem) := by
  have hreadings : Sorted ((problem.constraints.zipIdx 1).flatMap fun c =>
      problem.readingFaults stem (.constraint c.2) c.1.lhs) := by
    refine sorted_flatMap (fun c => sorted_readingFaults ..) (fun c c' hlt e he e' he' => ?_) _
    obtain ⟨source,-,rfl⟩ := mem_readingFaults.mp he
    obtain ⟨source',-,rfl⟩ := mem_readingFaults.mp he'
    simpa [place,List.cons_lt_cons_iff] using hlt
  refine sorted_append.mpr ⟨sorted_checkFaults,
    sorted_append.mpr ⟨sorted_readingFaults ..,hreadings,?_⟩,?_⟩
  · simp only [List.mem_flatMap,mem_readingFaults]
    rintro _ ⟨source,-,rfl⟩ _ ⟨c,-,source',-,rfl⟩
    simp [place,List.cons_lt_cons_iff]
  · simp only [checkFaults,conditionFaults,List.mem_append,List.mem_flatMap,mem_readingFaults,
      mem_given]
    rintro _ (⟨-,rfl⟩ | ⟨-,rfl⟩ | ⟨c,-,⟨-,rfl⟩ | ⟨-,rfl⟩⟩) _
      (⟨source,-,rfl⟩ | ⟨c',-,source,-,rfl⟩) <;> simp [place,List.cons_lt_cons_iff]

/-- The checks of the constraints report their causes in order. -/
lemma reports_checkConditions (number : ℕ) (conditions : List (Condition K)) :
    Except.Reports (checkConditions number conditions)
      ((conditions.zipIdx number).flatMap conditionFaults) := by
  induction conditions generalizing number with
  | nil => rfl
  | cons c conditions ih =>
    rw [List.zipIdx_cons,List.flatMap_cons]
    refine Except.Reports.bind ?_ fun _ => ih (number+1)
    unfold checkCondition conditionFaults given
    cases isEmptyText c.lhs <;> cases Scalar.isFinite c.rhs <;> rfl

lemma reports_check : Except.Reports problem.check problem.checkFaults := by
  unfold check checkFaults given
  split
  · rfl
  · split
    · rfl
    · exact reports_checkConditions 1 problem.constraints

lemma reports_readAt (location : Location) (text : String) :
    Except.Reports (readAt location text (.numbered stem problem.variableCount) :
      Except CompileError (Equation K)) (problem.readingFaults stem location text) := by
  unfold readAt readingFaults reading
  cases (Formula.read text (.numbered stem problem.variableCount) : Except _ (Equation K)) <;> rfl

lemma reports_readConditions (number : ℕ) (conditions : List (Condition K)) :
    Except.Reports (readConditions (.numbered stem problem.variableCount) number conditions)
      ((conditions.zipIdx number).flatMap fun c =>
        problem.readingFaults stem (.constraint c.2) c.1.lhs) := by
  induction conditions generalizing number with
  | nil => rfl
  | cons c conditions ih =>
    rw [List.zipIdx_cons,List.flatMap_cons]
    exact (reports_readAt _ _).bind fun _ => (ih (number+1)).bind_pure

theorem reports_compile : Except.Reports (problem.compile stem) (problem.faults stem) :=
  reports_check.bind fun _ => (reports_readAt _ _).bind fun _ =>
    (reports_readConditions 1 problem.constraints).bind_pure

theorem valid_iff_no_fault : problem.Valid stem ↔ ∀ e, ¬ problem.Fault stem e := by
  have hread : ∀ text, (∃ e, problem.reading stem text = .ok e) ↔
      ∀ source, problem.reading stem text ≠ .error source := by
    intro text
    cases problem.reading stem text <;> simp
  constructor
  · rintro ⟨hcount,⟨htext,hok⟩,hall⟩ e he
    cases he with
    | noVariables h => omega
    | emptyObjective h => exact h htext
    | emptyConstraint hc h => exact h (hall _ (List.fst_mem_of_mem_zipIdx hc)).1
    | nonFiniteRhs hc h =>
      rw [(hall _ (List.fst_mem_of_mem_zipIdx hc)).2.1] at h
      contradiction
    | objective h => exact (hread _).mp hok _ h
    | constraint hc h => exact (hread _).mp (hall _ (List.fst_mem_of_mem_zipIdx hc)).2.2 _ h
  · intro hnone
    refine ⟨?_,⟨?_,(hread _).mpr fun source h => hnone _ (.objective h)⟩,fun c hc => ?_⟩
    · by_contra hzero
      exact hnone _ (.noVariables (by omega))
    · by_contra htext
      exact hnone _ (.emptyObjective htext)
    · obtain ⟨number,hc⟩ : ∃ number, (c,number) ∈ problem.constraints.zipIdx 1 := by
        rw [← List.zipIdx_map_fst 1 problem.constraints,List.mem_map] at hc
        obtain ⟨⟨_,number⟩,hc,rfl⟩ := hc
        exact ⟨number,hc⟩
      refine ⟨?_,?_,(hread _).mpr fun source h => hnone _ (.constraint hc h)⟩
      · by_contra htext
        exact hnone _ (.emptyConstraint hc htext)
      · by_contra hinfinite
        exact hnone _ (.nonFiniteRhs hc (Bool.eq_false_iff.mpr hinfinite))

/-- An expression over numbered variables has entries for exactly their indices. -/
lemma contains_of_read {count : ℕ} {text : String} {e : Equation K}
    (h : Formula.read text (.numbered stem count) = .ok e) (i : ℕ) :
    e.contains i = true ↔ 1 ≤ i ∧ i ≤ count := by
  rw [Formula.contains_read h]
  simp only [Registry.numbered,List.mem_map,List.mem_range]
  constructor
  · rintro ⟨_,⟨k,hk,rfl⟩,rfl⟩
    exact ⟨Nat.succ_pos k,hk⟩
  · rintro ⟨hpos,hle⟩
    exact ⟨_,⟨i-1,by omega,rfl⟩,Nat.sub_add_cancel hpos⟩

/-- Compiling a problem fails exactly if there is cause for an error, with the first of the errors
that there is cause for. The program of a valid problem has its constraints in their order, and all
its expressions mention each variable. -/
theorem compile_reports_first (problem : Problem K) (stem : String) :
    (∀ e, problem.compile stem = .error e ↔
      problem.Fault stem e ∧ ∀ e', problem.Fault stem e' → e' = e ∨ e.place < e'.place) ∧
    ((∃ p, problem.compile stem = .ok p) ↔ problem.Valid stem) ∧
    ∀ p, problem.compile stem = .ok p → problem.ReadsAs stem p ∧
      ∀ e ∈ p.objective.equation :: p.constraints.map Constraint.equation,
        ∀ i, e.contains i = true ↔ 1 ≤ i ∧ i ≤ problem.variableCount := by
  refine ⟨fun e => ?_,?_,fun p hp => ?_⟩
  · rw [← Except.failure?_eq_some,reports_compile,sorted_faults.head?_eq_some]
    simp only [mem_faults]
  · rw [valid_iff_no_fault]
    simp only [← mem_faults]
    rw [← List.eq_nil_iff_forall_not_mem,← List.head?_eq_none_iff,← reports_compile]
    cases problem.compile stem <;> simp [Except.failure?]
  · have hparts := readsAs_of_compile hp
    have hcontains : ∀ {text : String} {e : Equation K}, Formula.read text p.registry = .ok e → ∀ i,
        e.contains i = true ↔ 1 ≤ i ∧ i ≤ problem.variableCount := by
      rw [hparts.registry]
      exact contains_of_read
    refine ⟨hparts,List.forall_mem_cons.mpr ⟨hcontains hparts.objective,?_⟩⟩
    rw [List.forall_mem_map]
    intro c hc
    obtain ⟨text,hread⟩ := hparts.exists_reading hc
    exact hcontains hread

/-- The second constraint has no text. This comes before the errors in reading the others. -/
example : Except.failure?
      (compile (⟨1,"?",.maximize,[⟨"?",.equal,0⟩,⟨" ",.equal,0⟩]⟩ : Problem ℚ)) =
    some (.emptyConstraint 2) := by decide +kernel

end Problem

end LinProg
