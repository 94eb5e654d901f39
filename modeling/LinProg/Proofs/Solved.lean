import LinProg.Proofs.PhaseTwo

/-!
What a solution reports: the point of the last tableau, under the names of the variables, and the
value of the objective there.
-/
namespace LinProg

namespace Solution

/-- The point that a solution reports for the variables of a registry. -/
def pointOf (sol : Solution ℚ) (r : Registry) : ℕ → ℚ :=
  r.point fun j => (sol.values.map Prod.snd).getD j 0

/-- The solution reports what a tableau that represents the program holds. -/
structure ReadFrom (sol : Solution ℚ) (t : Tableau ℚ) (p : Program ℚ) : Prop where
  rows : sol.tableau.rows = t.rows
  labels : sol.values.map Prod.fst = p.registry.members.map Variable.label
  point : sol.pointOf p.registry = p.registry.point t.valueOf
  value : sol.objectiveValue = p.valueAt (p.registry.point t.valueOf)

end Solution

namespace Tableau

section Finish
variable {K : Type} [Scalar K]

@[simp] lemma valueOf_finish (t : Tableau K) : t.finish.valueOf = t.valueOf := by
  unfold finish
  split <;> rfl

@[simp] lemma columns_finish (t : Tableau K) : t.finish.columns = t.columns := by
  unfold finish
  split <;> rfl

@[simp] lemma rows_finish (t : Tableau K) : t.finish.rows = t.rows := by
  unfold finish
  split <;> rfl

end Finish

namespace Represents
variable {p : Program ℚ} {t : Tableau ℚ} (h : t.Represents p)
include h

lemma decisionValues_eq (hp : p.Covered) : Solution.decisionValues t =
    p.registry.members.zipIdx.map fun v => (v.1.label,t.valueOf v.2) := by
  obtain ⟨vs,hm,hvs⟩ := h.members
  have hown : (p.registry.members.zipIdx.filter fun v => !v.1.kind.isAdded) =
      p.registry.members.zipIdx := by
    apply List.filter_eq_self.mpr
    intro v hv
    rw [hp.decisions v.1 (List.fst_mem_of_mem_zipIdx hv)]
    rfl
  have hadded : ((vs.zipIdx p.registry.members.length).filter fun v => !v.1.kind.isAdded) = [] := by
    apply List.filter_eq_nil_iff.mpr
    intro v hv
    simp [hvs v.1 (List.fst_mem_of_mem_zipIdx hv)]
  simp only [Solution.decisionValues,hm,List.zipIdx_append,List.filter_append,zero_add,hown,hadded,
    List.append_nil,Scalar.plainZero_eq]

/-- The sign that entered the costs of a program that minimizes is taken back. -/
lemma objectiveValue_finish :
    t.finish.objectiveValue = p.valueAt (p.registry.point t.valueOf) := by
  have hscore := h.score _ h.canonical.solves_valueOf
  rw [h.canonical.score_valueOf,p.evaluate_maximized] at hscore
  rw [finish,h.minimizes]
  cases hm : p.objective.isMaximize with
  | true => simpa [hm,objectiveValue] using hscore
  | false => simp [hm,objectiveValue,hscore]

theorem readFrom (hp : p.Covered) (iterations : ℕ) :
    (Solution.ofTableau t.finish iterations).ReadFrom t p where
  rows := rows_finish t
  labels := by
    simp only [Solution.ofTableau,Solution.decisionValues,columns_finish,valueOf_finish]
    change (Solution.decisionValues t).map Prod.fst = _
    rw [h.decisionValues_eq hp,List.map_map]
    change p.registry.members.zipIdx.map (Variable.label ∘ Prod.fst) = _
    rw [← List.map_map,List.zipIdx_map_fst]
  point := by
    apply Registry.point_congr
    intro j hj
    have hj' : j < p.registry.members.length := hj
    simp only [Solution.ofTableau,Solution.decisionValues,columns_finish,valueOf_finish]
    change ((Solution.decisionValues t).map Prod.snd).getD j 0 = _
    rw [h.decisionValues_eq hp,List.getD_eq_getElem?_getD]
    simp [hj']
  value := by
    rw [← h.objectiveValue_finish]
    exact Scalar.plainZero_eq _

end Represents

end Tableau

namespace Solver
variable {s : Solver ℚ} {p : Program ℚ}

/-- Every solution is read off an optimal tableau that represents the program. -/
theorem exists_of_solve_eq_ok (hs : 0 ≤ s.tolerance) (hp : p.Covered) {sol : Solution ℚ}
    (h : s.solve p = .ok sol) : ∃ t v, Tableau.build p = .ok t ∧ v.Represents p ∧
      (s.NeverOvershoots t → v.Nonneg) ∧ s.verdict v = .optimal ∧ sol.ReadFrom v p := by
  obtain ⟨t,spent,u,hb,hr,hstop,rfl⟩ := solve_eq_ok h
  have hform := Tableau.standardForm_of_build hp.ordered hb
  have hrep := represents_phaseTwo hs hform hr hp
  refine ⟨t,_,hb,hrep,nonneg_phaseTwo hs hform hr hp,s.verdict_of_optimal hstop,?_⟩
  exact hrep.readFrom hp _

end Solver

end LinProg
