import LinProg.Proofs.Points
import LinProg.Proofs.Pricing

/-!
The costs behind the entering of the objective, written down without the loop that computes them.
Where the basic columns form an identity matrix, clearing one of them moves the cost of no other, so
one pass over the rows is enough, in whatever order it takes them.
-/
namespace LinProg

namespace Row

lemma entry_length {K : Type} (r : Row K) : r.entry r.entries.length = r.rhs := by
  simp [entry,List.getD_eq_getElem?_getD]

/-- Rows of one length are told apart by their entries and right-hand sides. -/
lemma ext_entry {K : Type} {r s : Row K} (hlength : r.entries.length = s.entries.length)
    (h : ∀ j, r.entry j = s.entry j) : r = s := by
  obtain ⟨as,a⟩ := r
  obtain ⟨bs,b⟩ := s
  have hrhs : a = b := by
    have := h as.length
    rwa [entry_length ⟨as,a⟩,hlength,entry_length ⟨bs,b⟩] at this
  have hentries : as = bs := by
    refine List.ext_getElem hlength fun j ha hb => ?_
    have := h j
    simpa [entry,List.getD_eq_getElem?_getD,ha,hb] using this
  rw [hentries,hrhs]

end Row

namespace Tableau

section PriceOut
variable {rows rows' : List (BasicRow ℚ)} {costs : Row ℚ}

/-- The multiple of a row that is subtracted is the cost that its basic column had at the start. -/
theorem entry_priceOut (h : ∀ r ∈ rows, r.entries.length = costs.entries.length)
    (hzero : rows.Pairwise fun r s => r.toRow.entry s.basic = 0) (j : ℕ) :
    (priceOut costs rows).entry j =
      costs.entry j-(rows.map fun r => costs.entry r.basic * r.toRow.entry j).sum := by
  induction rows generalizing costs with
  | nil => simp [priceOut]
  | cons r rows ih =>
    obtain ⟨hz,hrest⟩ := List.pairwise_cons.mp hzero
    have hr := (h r (by simp)).symm
    have hkeep : ∀ s ∈ rows,
        (costs.eliminate r.basic r.toRow).entry s.basic = costs.entry s.basic := fun s hs => by
      rw [Row.entry_eliminate hr,hz s hs,mul_zero,sub_zero]
    have hmap : (rows.map fun s =>
        (costs.eliminate r.basic r.toRow).entry s.basic * s.toRow.entry j) =
        rows.map fun s => costs.entry s.basic * s.toRow.entry j :=
      List.map_congr_left fun s hs => by rw [hkeep s hs]
    change (priceOut (costs.eliminate r.basic r.toRow) rows).entry j = _
    rw [ih (length_eq_eliminate h) hrest,hmap,Row.entry_eliminate hr,List.map_cons,List.sum_cons]
    ring

/-- Rows that leave each other's basic columns alone can be taken in any order. -/
theorem priceOut_perm (hperm : rows'.Perm rows)
    (h : ∀ r ∈ rows, r.entries.length = costs.entries.length)
    (hzero : rows.Pairwise fun r s => s.toRow.entry r.basic = 0 ∧ r.toRow.entry s.basic = 0) :
    priceOut costs rows' = priceOut costs rows := by
  have h' : ∀ r ∈ rows', r.entries.length = costs.entries.length := fun r hr =>
    h r (hperm.mem_iff.mp hr)
  have hzero' := (hperm.pairwise_iff And.symm).mpr hzero
  refine Row.ext_entry ((length_priceOut h').trans (length_priceOut h).symm) fun j => ?_
  rw [entry_priceOut h' (hzero'.imp And.right),entry_priceOut h (hzero.imp And.right),
    (hperm.map _).sum_eq]

end PriceOut

/-- The cost of a column before any is cleared: the negated coefficient of a decision. -/
def freshCost (t : Tableau ℚ) (j : ℕ) : ℚ :=
  match t.columns.at? j with
  | some v => if v.kind = .decision then -(t.objective.get? v.index).getD 0 else 0
  | none => 0

/-- The values of the decisions in the basic solution, by their indices. -/
def decisionPoint (t : Tableau ℚ) : ℕ → ℚ :=
  t.columns.point fun j =>
    if (t.columns.at? j).map Variable.kind = some .decision then t.valueOf j else 0

variable {t : Tableau ℚ}

lemma entry_objectiveCosts (t : Tableau ℚ) (j : ℕ) :
    (objectiveCosts t.columns t.objective).entry j = t.freshCost j := by
  simp only [Row.entry,objectiveCosts,List.getD_eq_getElem?_getD,List.getElem?_map,freshCost,
    Registry.at?]
  cases t.columns.members[j]? with
  | none => rfl
  | some v =>
    simp only [Option.map_some,Option.getD_some]
    cases v.kind <;> cases t.objective.get? v.index <;> simp [Kind.isAdded]

/-- What the fresh costs say of the basic solution is the value of the objective there. -/
lemma residual_objectiveCosts_valueOf (ho : t.columns.Ordered) :
    (objectiveCosts t.columns t.objective).residual t.valueOf =
      t.objective.evaluate t.decisionPoint := by
  rw [decisionPoint,Equation.evaluate_point ho,Row.residual,Row.dot,length_objectiveCosts]
  change 0-_ = _
  rw [zero_sub,← Finset.sum_neg_distrib]
  refine Finset.sum_congr rfl fun j _ => ?_
  rw [entry_objectiveCosts,freshCost,Equation.coefficientAt]
  cases t.columns.at? j with
  | none => simp
  | some v =>
    by_cases hkind : v.kind = .decision
    · simp [hkind]
    · simp [hkind]

/-- Entering the objective clears every basic column in one pass: the costs are the fresh ones less
a combination of the rows, they are worth the objective at the basic solution, the order of the rows
does not matter to them, and nothing else changes. -/
theorem enterObjective_prices_out (ht : t.IdentityBasis) (ho : t.columns.Ordered) :
    (∀ r ∈ t.rows, t.enterObjective.costs.entry r.basic = 0) ∧
    (∀ j, t.enterObjective.costs.entry j =
      t.freshCost j-(t.rows.map fun r => t.freshCost r.basic * r.toRow.entry j).sum) ∧
    t.enterObjective.objectiveValue = t.objective.evaluate t.decisionPoint ∧
    (∀ rows, rows.Perm t.rows →
      ({ t with rows } : Tableau ℚ).enterObjective.costs = t.enterObjective.costs) ∧
    t.enterObjective = { t with goal := .objective, costs := t.enterObjective.costs } := by
  have hc := ht.enterObjective
  refine ⟨hc.priced,fun j => ?_,?_,fun rows hperm => ?_,rfl⟩
  · rw [costs_enterObjective,entry_priceOut ht.length_row (ht.entry_other.imp And.right)]
    simp only [entry_objectiveCosts]
  · calc t.enterObjective.objectiveValue = t.enterObjective.score t.valueOf :=
        hc.score_valueOf.symm
      _ = (objectiveCosts t.columns t.objective).residual t.valueOf :=
        score_enterObjective ht.toRectangular hc.solves_valueOf
      _ = t.objective.evaluate t.decisionPoint := residual_objectiveCosts_valueOf ho
  · exact priceOut_perm hperm ht.length_row ht.entry_other

/-- `X1` and the artificial column are basic, which is how phase 1 may leave them. -/
def mixedBasis : Tableau ℚ where
  columns := ⟨[⟨"X1",1,.decision,none⟩,⟨"X2",2,.decision,none⟩,⟨"A1",3,.artificial,none⟩,
    ⟨"S1",4,.slack,none⟩]⟩
  costs := ⟨[0,3,0,-1],0⟩
  rows := [⟨⟨[0,3,1,-1],0⟩,2⟩,⟨⟨[1,2,0,1],4⟩,0⟩]
  phase := .two
  minimizes := false
  objective := .ofList [(1,5),(2,7)]
  goal := .artificials

theorem enterObjective_prices_out_mixed : mixedBasis.IdentityBasis ∧ mixedBasis.columns.Ordered ∧
    mixedBasis.enterObjective.costs.entries = [0,3,0,5] ∧
    mixedBasis.enterObjective.objectiveValue = 20 ∧
    mixedBasis.objective.evaluate mixedBasis.decisionPoint = 20 := by
  have ht : mixedBasis.IdentityBasis := by
    refine ⟨⟨rfl,by decide⟩,by decide,fun i k hi hk => ?_⟩
    change i < 2 at hi
    change k < 2 at hk
    interval_cases i <;> interval_cases k <;> rfl
  have ho : mixedBasis.columns.Ordered := by
    unfold Registry.Ordered mixedBasis
    decide
  obtain ⟨-,-,hvalue,-⟩ := enterObjective_prices_out ht ho
  have h20 : mixedBasis.enterObjective.objectiveValue = 20 := by decide +kernel
  exact ⟨ht,ho,by decide +kernel,h20,hvalue.symm.trans h20⟩

end Tableau

end LinProg
