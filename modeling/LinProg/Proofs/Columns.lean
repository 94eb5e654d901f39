import LinProg.Proofs.Frame
import LinProg.Proofs.RegistryHistory
import LinProg.Proofs.Solved

/-!
The columns of the tableaux of a solve, for any arithmetic. The first tableau has columns for
variables of the program, and behind them the added ones; after that only artificial columns are
ever removed, so the columns of decisions stay as they are up to the solution.
-/
namespace LinProg

/-- A variable as it is made for an added column: it has the name that belongs to its kind, and no
alias. -/
structure Variable.IsFiller (v : Variable) : Prop where
  isAdded : v.kind.isAdded = true
  alias_eq_none : v.alias? = none
  name_eq : ∃ k, v.name = v.kind.nameAt k

lemma Relation.isAdded_of_mem_addedKinds {r : Relation} {kind : Kind} (h : kind ∈ r.addedKinds) :
    kind.isAdded = true := by
  revert h
  cases r <;> cases kind <;> decide

lemma Registry.perm_of_foldlM_insert {vs : List Variable} {r r' : Registry}
    (h : vs.foldlM insert r = .ok r') : r'.members.Perm (r.members ++ vs) := by
  induction vs generalizing r with
  | nil =>
    obtain rfl : r = r' := Except.ok.inj h
    rw [List.append_nil]
  | cons v vs ih =>
    obtain ⟨u,hu,h⟩ := Except.bind_eq_ok.mp ((List.foldlM_cons ..).symm.trans h)
    obtain ⟨rfl,-⟩ := insert_eq_ok hu
    exact (ih h).trans (((perm_place v r.members).append_right vs).trans List.perm_middle.symm)

namespace Tableau
variable {K : Type} [Scalar K] {p : Program K} {t : Tableau K}

lemma Growth.isFiller_of_mem_added {g : Growth} {kinds : List Kind}
    (hkinds : ∀ kind ∈ kinds, kind.isAdded = true) {v : Variable} (hv : v ∈ g.added kinds) :
    v.IsFiller := by
  induction kinds generalizing g with
  | nil => contradiction
  | cons kind kinds ih =>
    rcases List.mem_cons.mp hv with rfl | hv
    · exact ⟨hkinds kind (by simp),rfl,_,rfl⟩
    · exact ih (fun kind' h => hkinds kind' (List.mem_cons_of_mem kind h)) hv

/-- The columns of the first tableau are variables of the program, each at most once, and behind
them the added ones. -/
theorem columns_of_build (h : build p = .ok t) : ∃ own added, t.columns.members = own ++ added ∧
    own.Subperm p.registry.members ∧ ∀ v ∈ added, v.IsFiller := by
  obtain ⟨own,hown,h⟩ := Except.bind_eq_ok.mp h
  have ho : own.Ordered := Registry.Ordered.foldlM_insert List.Pairwise.nil hown
  obtain ⟨⟨g,ss⟩,hg,h⟩ := Except.bind_eq_ok.mp h
  obtain ⟨rows,-,h⟩ := Except.bind_eq_ok.mp h
  obtain rfl := Except.ok.inj h
  obtain rfl := eq_foldl_of_supplements ho hg
  refine ⟨_,_,Growth.members_foldl_grow _ _,?_,fun v hv => ?_⟩
  · have hperm := Registry.perm_of_foldlM_insert hown
    exact hperm.subperm.trans List.filter_sublist.subperm
  · refine Growth.isFiller_of_mem_added (fun kind hkind => ?_) hv
    obtain ⟨c,-,hkind⟩ := List.mem_flatMap.mp hkind
    exact Relation.isAdded_of_mem_addedKinds hkind

omit [Scalar K] in
lemma columns_removeArtificials {u : Tableau K} (h : t.removeArtificials = .ok u) :
    u.columns = t.columns.retain fun v => !v.isArtificial := by
  unfold removeArtificials at h
  split at h
  case h_1 => contradiction
  case h_2 => rw [← Except.ok.inj h]

end Tableau

namespace Registry

/-- An artificial variable is no decision. -/
lemma decisions_retain (r : Registry) :
    (r.retain fun v => !v.isArtificial).decisions = r.decisions := by
  rw [decisions,retain,List.filter_filter,decisions]
  refine List.filter_congr fun v _ => ?_
  rw [Variable.isArtificial]
  cases v.kind <;> rfl

end Registry

namespace Solver
variable {K : Type} [Scalar K] {s : Solver K} {p : Program K} {t : Tableau K} {sol : Solution K}

/-- The columns are columns of the first tableau, and all columns of decisions are among them. -/
structure KeepsColumns (t u : Tableau K) : Prop where
  subset : u.columns.members ⊆ t.columns.members
  decisions : u.columns.decisions = t.columns.decisions

lemma preserves_keepsColumns (s : Solver K) (t : Tableau K) :
    s.Preserves fun e => KeepsColumns t e.tableau where
  negate _ h := ⟨h.subset,h.decisions⟩
  pivot _ u q _ _ h := by
    refine ⟨?_,?_⟩
    · rw [Tableau.columns_pivot]
      exact h.subset
    · rw [Tableau.columns_pivot]
      exact h.decisions
  restore _ _ _ h := ⟨h.subset,h.decisions⟩
  remove u v hv h := by
    have hcolumns := Tableau.columns_removeArtificials hv
    refine ⟨?_,?_⟩
    · rw [hcolumns]
      exact fun w hw => h.subset (List.mem_of_mem_filter hw)
    · rw [hcolumns,Registry.decisions_retain]
      exact h.decisions

theorem keepsColumns_history (s : Solver K) (t : Tableau K) :
    ∀ e ∈ s.history t, KeepsColumns t e.tableau :=
  have first : KeepsColumns t t := ⟨List.Subset.refl _,rfl⟩
  (s.preserves_keepsColumns t).history (fun _ => first) fun _ => first

/-- The tableau of a solution is the last one of the history, with the value of a minimum negated
back. -/
theorem exists_finish_of_solve (h : s.solve p = .ok sol) : ∃ t, Tableau.build p = .ok t ∧
    ∃ e ∈ s.history t, sol = .ofTableau e.tableau.finish sol.iterations := by
  obtain ⟨t,spent,u,hb,hr,-,rfl⟩ := solve_eq_ok h
  exact ⟨t,hb,_,snapshots_subset hr (Run.last_mem_snapshots _ _),rfl⟩

end Solver

end LinProg
