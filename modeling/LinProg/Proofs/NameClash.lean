import LinProg.Proofs.Building
import LinProg.Proofs.Compiled
import LinProg.Proofs.Frame
import LinProg.Proofs.Outcomes

/-!
Compiled programs are solved within the rules of the library, unless a variable has the name of a
column that the first tableau adds. The stem of the variables decides whether it can.
-/
namespace LinProg

namespace Registry

/-- Numbered variables have names and indices of their own, whatever the stem. -/
lemma proper_numbered (stem : String) (count : ℕ) : (numbered stem count).Proper where
  ordered := ordered_numbered stem count
  positive v hv := by
    obtain ⟨i,-,rfl⟩ := List.mem_map.mp hv
    exact Nat.succ_ne_zero i
  names := by
    rw [numbered,List.pairwise_map]
    refine List.pairwise_lt_range.imp fun {i j} hlt => ?_
    rw [Bool.eq_false_iff]
    intro hnamed
    have := Text.sameLetters_toString hnamed
    omega

end Registry

namespace Program
variable {K : Type} [Scalar K] {p : Program K} {name : String}

/-- The name is that of a column which is added for the constraints, and a variable has it too. -/
structure Clash (p : Program K) (name : String) : Prop where
  added : (∃ k < p.constraints.countP fun c => c.relation != .equal, name = "S" ++ toString (k+1)) ∨
    ∃ k < p.constraints.countP fun c => c.rowRelation != .atMost, name = "A" ++ toString (k+1)
  taken : ∃ v ∈ p.registry.members, v.isNamed name = true

lemma countP_addedKinds (stem : String) (cs : List (Constraint K)) (f : Constraint K → Bool)
    (h : ∀ c : Constraint K,
      c.rowRelation.addedKinds.countP (·.stem == stem) = if f c then 1 else 0) :
    (cs.flatMap fun c => c.rowRelation.addedKinds).countP (·.stem == stem) = cs.countP f := by
  induction cs with
  | nil => rfl
  | cons c cs ih => rw [List.flatMap_cons,List.countP_append,ih,h,List.countP_cons,add_comm]

/-- Every row but an equation gets a slack or a surplus column. -/
lemma countP_stem_slack (cs : List (Constraint K)) :
    (cs.flatMap fun c => c.rowRelation.addedKinds).countP (·.stem == "S") =
      cs.countP fun c => c.relation != .equal := by
  refine countP_addedKinds _ cs _ fun c => ?_
  unfold Constraint.rowRelation
  split <;> cases c.relation <;> rfl

lemma countP_stem_artificial (cs : List (Constraint K)) :
    (cs.flatMap fun c => c.rowRelation.addedKinds).countP (·.stem == "A") =
      cs.countP fun c => c.rowRelation != .atMost := by
  refine countP_addedKinds _ cs _ fun c => ?_
  cases c.rowRelation <;> rfl

lemma clash_iff : p.Clash name ↔ (⟨p.registry,0,0⟩ : Tableau.Growth).Clashes
    (p.constraints.flatMap fun c => c.rowRelation.addedKinds) name := by
  constructor
  · rintro ⟨⟨k,hk,rfl⟩ | ⟨k,hk,rfl⟩,htaken⟩
    · rw [← countP_stem_slack] at hk
      exact ⟨⟨.slack,k,rfl,Nat.zero_le k,by rwa [Tableau.Growth.count,zero_add]⟩,htaken⟩
    · rw [← countP_stem_artificial] at hk
      exact ⟨⟨.artificial,k,rfl,Nat.zero_le k,by rwa [Tableau.Growth.count,zero_add]⟩,htaken⟩
  · rintro ⟨⟨kind,k,rfl,-,hk⟩,htaken⟩
    refine ⟨?_,htaken⟩
    cases kind with
    | artificial =>
      rw [Tableau.Growth.count,zero_add,Kind.stem,countP_stem_artificial] at hk
      exact .inr ⟨k,hk,rfl⟩
    | decision | slack | surplus =>
      rw [Tableau.Growth.count,zero_add,Kind.stem,countP_stem_slack] at hk
      exact .inl ⟨k,hk,rfl⟩

end Program

namespace Tableau
variable {K : Type} [Scalar K] {problem : Problem K} {stem : String} {p : Program K}

/-- The first tableau of a compiled program is built, or else a name clashes. -/
theorem build_of_compile (h : problem.compile stem = .ok p) :
    ((∀ name, ¬ p.Clash name) ∧ ∃ t, build p = .ok t) ∨
      ∃ name, p.Clash name ∧ build p = .error (.nameTaken name) := by
  have hparts := Problem.readsAs_of_compile h
  have hr : p.registry.Proper := hparts.registry ▸ Registry.proper_numbered _ _
  have hown := ownColumns_of_proper hr hparts.objective_contains
  cases hg : supplements { columns := p.registry } p.constraints with
  | error m =>
    obtain ⟨name,rfl,hclash⟩ := supplements_eq_error hr.ordered hg
    refine .inr ⟨name,Program.clash_iff.mpr hclash,?_⟩
    exact Except.bind_eq_error.mpr (.inr ⟨_,hown,Except.bind_eq_error.mpr (.inl hg)⟩)
  | ok x =>
    obtain ⟨g,ss⟩ := x
    have hroom := Growth.Room.of_supplements hr.ordered hg
    obtain ⟨rows,hrows⟩ := exists_constraintRows (g.columns.size-p.registry.size)
      hparts.constraint_contains 1 ss
    refine .inl ⟨fun name hname => hroom.not_clashes (Program.clash_iff.mp hname),?_⟩
    exact ⟨_,Except.bind_eq_ok.mpr ⟨_,hown,Except.bind_eq_ok.mpr ⟨_,hg,
      Except.bind_eq_ok.mpr ⟨_,hrows,rfl⟩⟩⟩⟩

end Tableau

namespace Text

/-- A text that a number completes to a letter and a number is that letter and digits. -/
lemma eq_cons_of_append {text : List Char} {letter : Char} {m n : ℕ}
    (hletter : letter.isDigit = false)
    (h : text ++ Nat.toDigits 10 m = letter::Nat.toDigits 10 n) :
    ∃ digits, (∀ c ∈ digits, c.isDigit = true) ∧ text = letter::digits := by
  cases text with
  | nil =>
    have hmem : letter ∈ Nat.toDigits 10 m := by
      rw [List.nil_append] at h
      rw [h]
      exact List.mem_cons_self ..
    rw [Decimal.isDigit_of_mem_toDigits hmem] at hletter
    contradiction
  | cons c digits =>
    obtain ⟨rfl,hrest⟩ := List.cons.inj h
    refine ⟨digits,fun d hd => Decimal.isDigit_of_mem_toDigits (n := n) ?_,rfl⟩
    exact hrest ▸ List.mem_append_left _ hd

end Text

namespace Problem
variable {K : Type} [Scalar K] {problem : Problem K} {stem : String} {p : Program K}

/-- A clash takes a stem that is the letter of the added columns, or that letter with digits. -/
lemma stem_of_clash (h : problem.ReadsAs stem p) {name : String} (hclash : p.Clash name) :
    ∃ digits, (∀ c ∈ digits, c.isDigit = true) ∧
      (Text.foldCase stem = 's'::digits ∨ Text.foldCase stem = 'a'::digits) := by
  obtain ⟨v,hv,hnamed⟩ := hclash.taken
  rw [h.registry] at hv
  obtain ⟨i,-,rfl⟩ := List.mem_map.mp hv
  rw [Variable.isNamed,Text.sameLetters_iff,Text.foldCase_append,Text.foldCase_toString] at hnamed
  rcases hclash.added with ⟨k,-,rfl⟩ | ⟨k,-,rfl⟩ <;>
    rw [Text.foldCase_append,Text.foldCase_toString] at hnamed
  · obtain ⟨digits,hdigits,hstem⟩ := Text.eq_cons_of_append (by decide) hnamed
    exact ⟨digits,hdigits,.inl hstem⟩
  · obtain ⟨digits,hdigits,hstem⟩ := Text.eq_cons_of_append (by decide) hnamed
    exact ⟨digits,hdigits,.inr hstem⟩

end Problem

namespace Solver
variable {K : Type} [Scalar K]

/-- No rule of the library is broken once there is a first tableau. -/
lemma solveTableau_ne_misuse (s : Solver K) (t : Tableau K) (m : Misuse) :
    s.solveTableau t ≠ .error (.misuse m) := by
  intro h
  rcases Except.bind_eq_error.mp h with h | ⟨x,-,h⟩
  · unfold ready at h
    cases hphase : t.phase with
    | single =>
      rw [hphase] at h
      contradiction
    | two =>
      rw [hphase] at h
      change s.phaseOneResult (s.phaseOne t) = _ at h
      cases hone : s.phaseOne t <;> rw [hone] at h <;> cases h
  · change s.phaseTwoResult x.1 (s.phaseTwo x.1 x.2) = _ at h
    unfold phaseTwoResult at h
    split at h <;> cases h

/-- A compiled program is solved within the rules of the library, and at positions within its
tableaux, exactly if no name of its variables clashes with one of an added column. No name does
unless the variables are called `S` or `A`, in either case, with or without digits behind. -/
theorem solve_compiled {problem : Problem K} {stem : String} {p : Program K}
    (h : problem.compile stem = .ok p) :
    ((∀ name, ¬ p.Clash name) → ∃ t, Tableau.build p = .ok t ∧ ∀ s : Solver K,
      (∀ m, s.solve p ≠ .error (.misuse m)) ∧ ∀ e ∈ s.history t, s.InRange e.tableau) ∧
    ((∃ name, p.Clash name) → ∃ name, p.Clash name ∧ Tableau.build p = .error (.nameTaken name) ∧
      ∀ s : Solver K, s.solve p = .error (.misuse (.nameTaken name))) ∧
    ∀ name, p.Clash name → ∃ digits, (∀ c ∈ digits, c.isDigit = true) ∧
      (Text.foldCase stem = 's'::digits ∨ Text.foldCase stem = 'a'::digits) := by
  have hstem := fun name (hname : p.Clash name) =>
    Problem.stem_of_clash (Problem.readsAs_of_compile h) hname
  rcases Tableau.build_of_compile h with ⟨hnone,t,hb⟩ | ⟨name,hclash,hb⟩
  · refine ⟨fun _ => ⟨t,hb,fun s => ⟨fun m => ?_,?_⟩⟩,fun ⟨name,hname⟩ => absurd hname (hnone name),
      hstem⟩
    · rw [solve,hb]
      exact s.solveTableau_ne_misuse t m
    · exact s.inRange_history (Tableau.framed_of_build hb)
  · refine ⟨fun hnone => absurd hclash (hnone name),fun _ => ⟨name,hclash,hb,fun s => ?_⟩,hstem⟩
    rw [solve,hb]

def stagedProblem : Problem Float where
  variableCount := 2
  objective := "X1 + 2X2"
  direction := .minimize
  constraints := [⟨"X1 + X2",.atLeast,2⟩,⟨"X1",.atMost,1⟩,⟨"X1 - X2",.equal,-1⟩]

theorem solve_compiled_staged : ∃ p t, stagedProblem.compile = .ok p ∧ Tableau.build p = .ok t ∧
    ∀ s : Solver Float, (∀ m, s.solve p ≠ .error (.misuse m)) ∧
      ∀ e ∈ s.history t, s.InRange e.tableau := by
  have hvalue : stagedProblem.compile.toOption.isSome = true := by decide +kernel
  obtain ⟨p,hp⟩ := Option.isSome_iff_exists.mp hvalue
  have hc := Except.toOption_eq_some.mp hp
  obtain ⟨hsolve,-,hstem⟩ := solve_compiled hc
  obtain ⟨t,hb,hrange⟩ := hsolve fun name hname => by
    have hletters : Text.foldCase "X" = ['x'] := by decide
    obtain ⟨digits,-,hs | ha⟩ := hstem name hname
    · exact absurd (List.cons.inj (hletters.symm.trans hs)).1 (by decide)
    · exact absurd (List.cons.inj (hletters.symm.trans ha)).1 (by decide)
  exact ⟨p,t,hc,hb,hrange⟩

def prefixedProblem : Problem Float where
  variableCount := 1
  objective := "S1"
  direction := .maximize
  constraints := [⟨"S1",.atLeast,1⟩]

/-- With the stem `S` the variable is called like the column of the constraint. -/
theorem prefixed_misuse : ∃ p, prefixedProblem.compile "S" = .ok p ∧
    ({} : Solver Float).solve p = .error (.misuse (.nameTaken "S1")) := by
  have hvalue : (prefixedProblem.compile "S").toOption.bind (fun p =>
      Except.failure? (Tableau.build p)) = some (.nameTaken "S1") := by decide +kernel
  obtain ⟨p,hp,hb⟩ := Option.bind_eq_some_iff.mp hvalue
  refine ⟨p,Except.toOption_eq_some.mp hp,?_⟩
  rw [solve,Except.failure?_eq_some.mp hb]

end Solver

end LinProg
