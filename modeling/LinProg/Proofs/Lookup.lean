import LinProg.Proofs.Columns

/-!
The values of a solution under texts. A value is found under the text that its variable is shown as,
which is the alias where there is one; the name behind an alias, like any other text, finds nothing.
-/
namespace LinProg

namespace Variable

def keys (v : Variable) : List String := v.name :: v.alias?.toList

def foldedKeys (v : Variable) : List (List Char) := v.keys.map Text.foldCase

lemma label_mem_keys (v : Variable) : v.label ∈ v.keys := by
  rw [label,keys]
  cases v.alias? <;> simp

lemma foldCase_mem_foldedKeys {v : Variable} {key : String} (h : key ∈ v.keys) :
    Text.foldCase key ∈ v.foldedKeys := List.mem_map_of_mem h

lemma isAdded_of_decision {v : Variable} (h : v.kind = .decision) : v.kind.isAdded = false := by
  rw [h]
  rfl

lemma decision_of_isAdded {v : Variable} (h : v.kind.isAdded = false) : v.kind = .decision := by
  revert h
  cases v.kind <;> decide

end Variable

namespace Registry

/-- The names and aliases of all decisions differ in more than the case of letters. -/
def KeysApart (r : Registry) : Prop := (r.decisions.flatMap Variable.foldedKeys).Nodup

lemma mem_decisions {r : Registry} {v : Variable} :
    v ∈ r.decisions ↔ v ∈ r.members ∧ v.kind = .decision := by
  rw [decisions,List.mem_filter,Bool.not_eq_true']
  exact and_congr_right fun _ => ⟨Variable.decision_of_isAdded,Variable.isAdded_of_decision⟩

section KeysApart
variable {r r' : Registry} (h : r.KeysApart)
include h

lemma KeysApart.of_subperm (hsub : r'.decisions.Subperm r.decisions) : r'.KeysApart := by
  obtain ⟨vs,hperm,hsublist⟩ := hsub
  rw [KeysApart,← (hperm.flatMap_right Variable.foldedKeys).nodup_iff]
  exact h.sublist (hsublist.flatMap Variable.foldedKeys)

/-- The name and the alias of a decision are different texts. -/
lemma KeysApart.name_ne_alias {v : Variable} (hv : v ∈ r.decisions) {key : String}
    (hkey : v.alias? = some key) : Text.foldCase v.name ≠ Text.foldCase key := by
  have hnodup := (List.nodup_flatMap.mp h).1 v hv
  rw [Variable.foldedKeys,Variable.keys,hkey] at hnodup
  simpa using hnodup

/-- A text stands for the decision of one column at most. -/
lemma KeysApart.column_unique {i j : ℕ} {v w : Variable} (hi : r.at? i = some v)
    (hj : r.at? j = some w) (hv : v.kind = .decision) (hw : w.kind = .decision) {key : List Char}
    (hkv : key ∈ v.foldedKeys) (hkw : key ∈ w.foldedKeys) : i = j := by
  have hpairs := (List.nodup_flatMap.mp h).2
  rw [decisions,List.pairwise_filter] at hpairs
  obtain ⟨hi',rfl⟩ := List.getElem?_eq_some_iff.mp hi
  obtain ⟨hj',rfl⟩ := List.getElem?_eq_some_iff.mp hj
  have hvd : (!r.members[i].kind.isAdded) = true := by rw [hv]; rfl
  have hwd : (!r.members[j].kind.isAdded) = true := by rw [hw]; rfl
  rcases lt_trichotomy i j with hlt | heq | hlt
  · exact absurd hkw (List.pairwise_iff_getElem.mp hpairs i j hi' hj' hlt hvd hwd hkv)
  · exact heq
  · exact absurd hkv (List.pairwise_iff_getElem.mp hpairs j i hj' hi' hlt hwd hvd hkw)

/-- No decision is shown as the name that stands behind an alias. -/
lemma KeysApart.label_ne_name {i : ℕ} {v w : Variable} (hi : r.at? i = some v)
    (hv : v.kind = .decision) {key : String} (hkey : v.alias? = some key)
    (hw : w ∈ r.decisions) : Text.foldCase w.label ≠ Text.foldCase v.name := by
  intro hfold
  obtain ⟨hmem,hkind⟩ := mem_decisions.mp hw
  obtain ⟨j,hj⟩ := List.getElem?_of_mem hmem
  have hname : Text.foldCase v.name ∈ w.foldedKeys := by
    rw [← hfold]
    exact Variable.foldCase_mem_foldedKeys w.label_mem_keys
  obtain rfl := h.column_unique hi hj hv hkind
    (Variable.foldCase_mem_foldedKeys (List.mem_cons_self ..)) hname
  obtain rfl := Option.some.inj (hi.symm.trans hj)
  have hlabel : v.label = key := by rw [Variable.label,hkey]; rfl
  exact h.name_ne_alias hw hkey (hlabel ▸ hfold.symm)

end KeysApart

end Registry

namespace Solution
variable {K : Type} [Scalar K] {t : Tableau K} {iterations : ℕ} {text : String}

lemma mem_decisionValues {e : String × K} : e ∈ decisionValues t ↔
    ∃ c v, t.columns.at? c = some v ∧ v.kind = .decision ∧
      e = (v.label,Scalar.plainZero (t.valueOf c)) := by
  simp only [decisionValues,List.mem_map,List.mem_filter,Bool.not_eq_true']
  constructor
  · rintro ⟨⟨v,c⟩,⟨hmem,hkind⟩,rfl⟩
    exact ⟨c,v,List.mk_mem_zipIdx_iff_getElem?.mp hmem,Variable.decision_of_isAdded hkind,rfl⟩
  · rintro ⟨c,v,hv,hkind,rfl⟩
    exact ⟨(v,c),⟨List.mk_mem_zipIdx_iff_getElem?.mpr hv,Variable.isAdded_of_decision hkind⟩,rfl⟩

/-- The text that a decision is shown as finds the value of its column. -/
lemma value?_label (ht : t.columns.KeysApart) {c : ℕ} {v : Variable}
    (hv : t.columns.at? c = some v) (hkind : v.kind = .decision)
    (htext : Text.sameLetters v.label text = true) :
    (ofTableau t iterations).value? text = some (Scalar.plainZero (t.valueOf c)) := by
  have hmem := mem_decisionValues.mpr ⟨c,v,hv,hkind,rfl⟩
  rw [value?,Option.map_eq_some_iff]
  cases hfind : (decisionValues t).find? fun v => Text.sameLetters v.1 text with
  | none => exact absurd htext (List.find?_eq_none.mp hfind _ hmem)
  | some e =>
    refine ⟨e,hfind,?_⟩
    obtain ⟨c',w,hw,hkind',rfl⟩ := mem_decisionValues.mp (List.mem_of_find?_eq_some hfind)
    have hsame : Text.foldCase w.label = Text.foldCase text := by
      simpa [Text.sameLetters_iff] using List.find?_some hfind
    have hkey : Text.foldCase v.label ∈ w.foldedKeys := by
      rw [Text.sameLetters_iff.mp htext,← hsame]
      exact Variable.foldCase_mem_foldedKeys w.label_mem_keys
    obtain rfl := ht.column_unique hv hw hkind hkind'
      (Variable.foldCase_mem_foldedKeys v.label_mem_keys) hkey
    rfl

/-- A text that no decision is shown as finds nothing. -/
lemma value?_eq_none (h : ∀ v ∈ t.columns.decisions, Text.foldCase v.label ≠ Text.foldCase text) :
    (ofTableau t iterations).value? text = none := by
  rw [value?,Option.map_eq_none_iff,List.find?_eq_none]
  intro e he hsame
  obtain ⟨c,v,hv,hkind,rfl⟩ := mem_decisionValues.mp he
  exact h v (Registry.mem_decisions.mpr ⟨List.mem_of_getElem? hv,hkind⟩)
    (Text.sameLetters_iff.mp hsame)

end Solution

namespace Solver
variable {K : Type} [Scalar K] {s : Solver K} {p : Program K} {sol : Solution K}

lemma subperm_decisions_of_solve (h : s.solve p = .ok sol) :
    sol.tableau.columns.decisions.Subperm p.registry.decisions := by
  obtain ⟨t,hb,e,he,hsol⟩ := exists_finish_of_solve h
  obtain ⟨own,added,hmembers,hsub,hadded⟩ := Tableau.columns_of_build hb
  have hnone : added.filter (fun v => !v.kind.isAdded) = [] := by
    refine List.filter_eq_nil_iff.mpr fun v hv => ?_
    rw [(hadded v hv).isAdded]
    decide
  have hfirst : t.columns.decisions.Subperm p.registry.decisions := by
    rw [Registry.decisions,hmembers,List.filter_append,hnone,List.append_nil]
    exact hsub.filter _
  rw [hsol,Solution.ofTableau,Tableau.columns_finish,(keepsColumns_history s t e he).decisions]
  exact hfirst

/-- If the names and aliases of the decisions differ, a decision of the last tableau is found under
its alias, and under its name exactly if it has no alias; what is found is the value of its column.
No other text finds anything. -/
theorem solution_lookup (hp : p.registry.KeysApart) (h : s.solve p = .ok sol) :
    (∀ c v, sol.tableau.columns.at? c = some v → v.kind = .decision →
      (∀ key, v.alias? = some key → ∀ text, Text.sameLetters key text = true →
        sol.value? text = some (Scalar.plainZero (sol.tableau.valueOf c))) ∧
      ∀ text, Text.sameLetters v.name text = true → sol.value? text =
        if v.alias? = none then some (Scalar.plainZero (sol.tableau.valueOf c)) else none) ∧
    ∀ text, (∀ v ∈ sol.tableau.columns.decisions, ∀ key ∈ v.keys,
      Text.sameLetters key text = false) → sol.value? text = none := by
  have hapart := hp.of_subperm (subperm_decisions_of_solve h)
  obtain ⟨t,-,e,-,hsol⟩ := exists_finish_of_solve h
  rw [hsol] at hapart ⊢
  refine ⟨fun c v hv hkind => ⟨fun key hkey text htext => ?_,fun text htext => ?_⟩,
    fun text htext => ?_⟩
  · have hlabel : v.label = key := by rw [Variable.label,hkey]; rfl
    exact Solution.value?_label hapart hv hkind (hlabel ▸ htext)
  · split
    case isTrue hnone =>
      have hlabel : v.label = v.name := by rw [Variable.label,hnone]; rfl
      exact Solution.value?_label hapart hv hkind (hlabel ▸ htext)
    case isFalse hsome =>
      obtain ⟨key,hkey⟩ := Option.ne_none_iff_exists'.mp hsome
      refine Solution.value?_eq_none fun w hw => ?_
      rw [← Text.sameLetters_iff.mp htext]
      exact hapart.label_ne_name hv hkind hkey hw
  · refine Solution.value?_eq_none fun v hv hfold => ?_
    have hne := htext v hv v.label v.label_mem_keys
    rw [Bool.eq_false_iff,ne_eq,Text.sameLetters_iff] at hne
    exact hne hfold

/-- Maximizes `X1 + 2X2` where `X1 <= 4` and `X2 <= 3`, with an alias for `X1`. -/
def aliasedProgram : Program Float where
  registry := (Registry.numbered "X" 2).setAlias 1 "chairs"
  objective := ⟨.ofList [(1,1),(2,2)],.maximize⟩
  constraints := [⟨.ofList [(1,1),(2,0)],.atMost,4⟩,⟨.ofList [(1,0),(2,1)],.atMost,3⟩]

lemma keysApart_aliasedProgram : aliasedProgram.registry.KeysApart := by
  unfold Registry.KeysApart
  decide +kernel

lemma exists_solve_aliasedProgram : ∃ sol, ({} : Solver Float).solve aliasedProgram = .ok sol ∧
    sol.tableau.columns.members = [⟨"X1",1,.decision,some "chairs"⟩,⟨"X2",2,.decision,none⟩,
      ⟨"S1",3,.slack,none⟩,⟨"S2",4,.slack,none⟩] := by
  have hcolumns : (({} : Solver Float).solve aliasedProgram).toOption.map
      (fun sol => sol.tableau.columns.members) = some [⟨"X1",1,.decision,some "chairs"⟩,
        ⟨"X2",2,.decision,none⟩,⟨"S1",3,.slack,none⟩,⟨"S2",4,.slack,none⟩] := by decide +kernel
  obtain ⟨sol,hsol,hmembers⟩ := Option.map_eq_some_iff.mp hcolumns
  exact ⟨sol,Except.toOption_eq_some.mp hsol,hmembers⟩

theorem solution_lookup_aliased : ∃ sol, ({} : Solver Float).solve aliasedProgram = .ok sol ∧
    sol.value? "CHAIRS" = some (Scalar.plainZero (sol.tableau.valueOf 0)) ∧
    sol.value? "x2" = some (Scalar.plainZero (sol.tableau.valueOf 1)) ∧
    sol.value? "S1" = none := by
  obtain ⟨sol,hsol,hmembers⟩ := exists_solve_aliasedProgram
  obtain ⟨hfound,hnone⟩ := solution_lookup keysApart_aliasedProgram hsol
  refine ⟨sol,hsol,?_,?_,hnone "S1" ?_⟩
  · obtain ⟨halias,-⟩ := hfound 0 ⟨"X1",1,.decision,some "chairs"⟩
      (by rw [Registry.at?,hmembers]; rfl) rfl
    exact halias "chairs" rfl "CHAIRS" (by decide +kernel)
  · obtain ⟨-,hname⟩ := hfound 1 ⟨"X2",2,.decision,none⟩ (by rw [Registry.at?,hmembers]; rfl) rfl
    exact hname "x2" (by decide +kernel)
  · rw [Registry.decisions,hmembers]
    decide +kernel

/-- The name of the variable with the alias finds nothing. -/
theorem name_behind_alias_not_found : aliasedProgram.registry.KeysApart ∧
    ∃ sol, ({} : Solver Float).solve aliasedProgram = .ok sol ∧
      ∃ v, sol.tableau.columns.at? 0 = some v ∧ v.kind = .decision ∧ sol.value? v.name = none := by
  have hvalue : (({} : Solver Float).solve aliasedProgram).toOption.map
      (fun sol => (sol.tableau.columns.at? 0,(sol.value? "X1").isNone)) =
        some (some ⟨"X1",1,.decision,some "chairs"⟩,true) := by decide +kernel
  obtain ⟨sol,hsol,hpair⟩ := Option.map_eq_some_iff.mp hvalue
  obtain ⟨hcolumn,hnone⟩ := Prod.mk.inj hpair
  exact ⟨keysApart_aliasedProgram,sol,Except.toOption_eq_some.mp hsol,_,hcolumn,rfl,
    Option.isNone_iff_eq_none.mp hnone⟩

end Solver

end LinProg
