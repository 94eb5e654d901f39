import LinProg.Proofs.Building
import LinProg.Proofs.Optimality

/-!
The first tableau is a faithful standard form of its program. Its nonnegative solutions without
artificial columns are the feasible points, and the added columns are named and placed in the order
of the constraints.
-/
namespace LinProg

namespace Program

/-- The first of the columns added for the constraint with number `i`, counted from 0. -/
def firstAdded (p : Program ℚ) (i : ℕ) : ℕ :=
  p.registry.size+(kindsOf (p.constraints.take i)).length

lemma firstAdded_succ (p : Program ℚ) {i : ℕ} (hi : i < p.constraints.length) :
    p.firstAdded (i+1) = p.firstAdded i+p.constraints[i].addedKinds.length := by
  rw [firstAdded,List.take_add_one,List.getElem?_eq_getElem hi,kindsOf,List.flatMap_append,
    List.length_append,firstAdded,add_assoc]
  simp [kindsOf]

end Program

/-- A row that needs an artificial column starts solved for it, the last of its columns. -/
lemma Constraint.artificial_mem_addedKinds (c : Constraint ℚ) : .artificial ∈ c.addedKinds ↔
    c.addedKinds[c.addedKinds.length-1]? = some .artificial := by
  unfold addedKinds
  cases c.rowRelation <;> decide

namespace Tableau

lemma getElem_placed {m : ℕ} {cs : List (Constraint ℚ)} {i : ℕ} (hi : i < (placed m cs).length)
    (hi' : i < cs.length) : (placed m cs)[i] = (cs[i],m+(kindsOf (cs.take i)).length) := by
  induction cs generalizing m i with
  | nil => simp at hi'
  | cons c cs ih =>
    cases i with
    | zero => simp [placed,kindsOf]
    | succ i =>
      simp only [placed,List.getElem_cons_succ,List.take_succ_cons,kindsOf_cons,List.length_append]
      rw [ih (by simpa [placed] using hi) (by simpa using hi'),add_assoc]

/-- A row is not zero in its own added columns. -/
lemma lookup_ne_zero_iff {m j : ℕ} {r : Relation} :
    ((supplementAt m r).units.lookup j).getD 0 ≠ 0 ↔ m ≤ j ∧ j < m+r.addedKinds.length := by
  by_cases hj : j < m ∨ m+r.addedKinds.length ≤ j
  · rw [lookup_outside hj]
    simp only [Option.getD_none,ne_eq,not_true_eq_false,false_iff]
    omega
  · refine iff_of_true ?_ (by omega)
    have hcases : j = m ∨ j = m+1 ∧ r = .atLeast := by
      cases r <;> simp [Relation.addedKinds] at hj ⊢ <;> omega
    rcases hcases with rfl | ⟨rfl,rfl⟩
    · cases r <;> simp [supplementAt]
    · simp [supplementAt,List.lookup_cons,beq_false_of_ne]

/-- The tableau says in equations what the program says in its constraints. -/
structure Faithful (t : Tableau ℚ) (p : Program ℚ) : Prop where
  /-- Nonnegative values of the variables satisfy the constraints exactly if there are nonnegative
  values for the slack and surplus columns that complete them to a solution. -/
  holds_iff : ∀ y : ℕ → ℚ, (∀ i, p.registry.position? i = none → y i = 0) →
    (∀ v ∈ p.registry.members, 0 ≤ y v.index) →
    ((∀ c ∈ p.constraints, c.Holds y) ↔ ∃ x, p.registry.point x = y ∧
      (∀ j < t.columns.size, p.registry.size ≤ j → t.isArtificial j = false → 0 ≤ x j) ∧
      (∀ j < t.columns.size, t.isArtificial j = true → x j = 0) ∧ t.Solves x)
  rhs_nonneg : ∀ r ∈ t.rows, 0 ≤ r.rhs
  costs_rhs_nonneg : 0 ≤ t.costs.rhs
  phase_iff : t.phase = .two ↔ ∃ c ∈ t.basis, t.isArtificial c = true
  own : t.columns.members.take p.registry.size = p.registry.members
  kinds : (t.columns.members.drop p.registry.size).map Variable.kind =
    p.constraints.flatMap fun c => c.rowRelation.addedKinds
  slack_names : (t.columns.members.filter fun v => v.kind == .slack || v.kind == .surplus).map
    Variable.name = (List.range p.slackCount).map fun k => "S" ++ toString (k+1)
  artificial_names : (t.columns.members.filter fun v => v.kind == .artificial).map
    Variable.name = (List.range p.artificialCount).map fun k => "A" ++ toString (k+1)
  /-- Each constraint has a row, and of the added columns the row has those that come next. -/
  rows_length : t.rows.length = p.constraints.length
  placement : ∀ (i : ℕ) (hi : i < t.rows.length), ∀ j < t.columns.size, p.registry.size ≤ j →
    (t.rows[i].toRow.entry j ≠ 0 ↔ p.firstAdded i ≤ j ∧ j < p.firstAdded (i+1))
  increasing : t.columns.members.Pairwise fun v w => v.index < w.index
  index_lt : ∀ v ∈ t.columns.members, v.index < wordLimit

/-- Costs to which rows without negative right-hand sides are added get no negative one. -/
lemma rhs_foldl_nonneg {rows : List (BasicRow ℚ)} {costs : Row ℚ} (hcosts : 0 ≤ costs.rhs)
    (hrows : ∀ r ∈ rows, 0 ≤ r.rhs) :
    0 ≤ (rows.foldl (fun costs row => costs.zipWith (· + ·) row.toRow) costs).rhs := by
  induction rows generalizing costs with
  | nil => exact hcosts
  | cons r rows ih =>
    have hr := hrows r (by simp)
    exact ih (add_nonneg hcosts hr) fun s hs => hrows s (List.mem_cons_of_mem r hs)

namespace StandardForm
variable {p : Program ℚ} {t : Tableau ℚ} (h : StandardForm p t)
include h

lemma rows_length : t.rows.length = p.constraints.length := by
  rw [h.rows,List.length_map,← List.length_map (f := Prod.fst),map_fst_placed]

lemma placement (hp : p.Covered) {i j : ℕ} (hi : i < t.rows.length) (hj : j < t.columns.size)
    (hlo : p.registry.size ≤ j) :
    t.rows[i].toRow.entry j ≠ 0 ↔ p.firstAdded i ≤ j ∧ j < p.firstAdded (i+1) := by
  have hi' : i < p.constraints.length := h.rows_length ▸ hi
  obtain ⟨hplaced,hrow⟩ := h.getElem_rows hi
  obtain ⟨d,rfl⟩ := Nat.exists_eq_add_of_le hlo
  rw [hrow,getElem_placed hplaced hi',hp.own_eq,entry_rowOf_added (by omega),lookup_ne_zero_iff,
    p.firstAdded_succ hi']
  rfl

/-- The feasible points are the nonnegative solutions without artificial columns. -/
lemma holds_iff (hp : p.Covered) {y : ℕ → ℚ} (hzero : ∀ i, p.registry.position? i = none → y i = 0)
    (hy : ∀ v ∈ p.registry.members, 0 ≤ y v.index) :
    (∀ c ∈ p.constraints, c.Holds y) ↔ ∃ x, p.registry.point x = y ∧
      (∀ j < t.columns.size, p.registry.size ≤ j → t.isArtificial j = false → 0 ≤ x j) ∧
      (∀ j < t.columns.size, t.isArtificial j = true → x j = 0) ∧ t.Solves x := by
  have hfeasible : (∀ c ∈ p.constraints, c.Holds y) ↔ p.Feasible y :=
    ⟨fun hholds => ⟨hzero,hy,hholds⟩,fun hf => hf.holds⟩
  rw [hfeasible,h.feasible_iff hp]
  apply exists_congr
  intro x
  constructor
  · rintro ⟨hxy,hx,hart,hx0⟩
    exact ⟨hxy,fun j hj _ _ => hx0 j hj,fun j _ => hart j,hx⟩
  · rintro ⟨rfl,hadded,hart,hx⟩
    refine ⟨rfl,hx,fun j hj => hart j (isArtificial_lt hj) hj,fun j hj => ?_⟩
    by_cases hown : j < p.registry.size
    · have hown' : j < p.registry.members.length := hown
      have hvalue := hy _ (List.getElem_mem hown')
      rwa [Registry.point_index hp.ordered x hown'] at hvalue
    · cases hkind : t.isArtificial j with
      | true => exact (hart j hj hkind).ge
      | false => exact hadded j hj (not_lt.mp hown) hkind

/-- Row 0 starts at zero, or in two phases at the sum of the rows with artificial columns. -/
lemma costs_rhs_nonneg : 0 ≤ t.costs.rhs := by
  rw [h.costs]
  cases t.phase with
  | single => exact le_rfl
  | two => exact rhs_foldl_nonneg le_rfl fun r hr => h.nonneg r (List.mem_of_mem_filter hr)

lemma phase_iff : t.phase = .two ↔ ∃ c ∈ t.basis, t.isArtificial c = true := by
  have hphase : t.phase = .two ↔ .artificial ∈ kindsOf p.constraints := by
    rw [h.phase]
    split <;> simp_all
  have hbasic : ∀ e ∈ placed p.own.size p.constraints,
      (t.isArtificial (supplementAt e.2 e.1.rowRelation).basic = true ↔
        .artificial ∈ e.1.addedKinds) := by
    intro e he
    have hpos := e.1.length_addedKinds_pos
    rw [basic_supplementAt,e.1.artificial_mem_addedKinds]
    exact h.isArtificial_added (k := e.1.addedKinds.length-1) he (by omega)
  rw [hphase,basis,h.rows]
  simp only [List.mem_map,exists_exists_and_eq_and]
  constructor
  · intro hmem
    obtain ⟨c,hc,hart⟩ := List.mem_flatMap.mp hmem
    obtain ⟨m,he⟩ := exists_mem_placed (m := p.own.size) hc
    exact ⟨_,he,(hbasic _ he).mpr hart⟩
  · rintro ⟨e,he,hart⟩
    exact List.mem_flatMap.mpr ⟨e.1,mem_of_mem_placed he,(hbasic e he).mp hart⟩

end StandardForm

section Added
variable {p : Program ℚ} {columns : Registry}

/-- The names of the columns of one numbering, in their order. -/
lemma names_columns (hp : p.Covered) (hm : columns.members =
      p.registry.members ++ (⟨p.registry,0,0⟩ : Growth).added (kindsOf p.constraints))
    (P : Kind → Bool) (kind' : Kind)
    (hP : ∀ kind, P kind = (kind.isAdded && kind.stem == kind'.stem)) :
    (columns.members.filter fun v => P v.kind).map Variable.name =
      (List.range ((kindsOf p.constraints).countP (·.stem == kind'.stem))).map kind'.nameAt := by
  have hown : p.registry.members.filter (fun v => P v.kind) = [] := by
    apply List.filter_eq_nil_iff.mpr
    intro v hv
    rw [hp.decisions v hv,hP]
    exact Bool.false_ne_true
  have hadded : ((⟨p.registry,0,0⟩ : Growth).added (kindsOf p.constraints)).filter
      (fun v => P v.kind) = ((⟨p.registry,0,0⟩ : Growth).added (kindsOf p.constraints)).filter
        fun v => v.kind.stem == kind'.stem := by
    apply List.filter_congr
    intro v hv
    have hmem : v.kind ∈ kindsOf p.constraints := by
      rw [← Growth.kinds_added ⟨p.registry,0,0⟩ (kindsOf p.constraints)]
      exact List.mem_map_of_mem hv
    rw [hP,isAdded_of_mem_kindsOf hmem,Bool.true_and]
  have hcount : (⟨p.registry,0,0⟩ : Growth).count kind' = 0 := by cases kind' <;> rfl
  rw [hm,List.filter_append,hown,List.nil_append,hadded,Growth.names_added,hcount,
    List.range_eq_range']

end Added

/-- The first tableau of every program that breaks no rule of the library can be built, and it is a
faithful standard form of the program. -/
theorem build_faithful {p : Program ℚ} (hp : p.WellFormed) :
    ∃ t, build p = .ok t ∧ t.Faithful p := by
  obtain ⟨t,hb,hm⟩ := exists_build hp
  have hc := hp.toCovered
  have h := standardForm_of_build hp.ordered hb
  have hslack := names_columns hc hm (fun kind => kind == .slack || kind == .surplus) .slack
    (by rintro (_ | _ | _ | _) <;> rfl)
  have hartificial := names_columns hc hm (· == .artificial) .artificial
    (by rintro (_ | _ | _ | _) <;> rfl)
  rw [Kind.stem,p.countP_slack] at hslack
  rw [Kind.stem,p.countP_artificial] at hartificial
  exact ⟨t,hb,{
    holds_iff := fun y hzero hy => h.holds_iff hc hzero hy
    rhs_nonneg := h.nonneg
    costs_rhs_nonneg := h.costs_rhs_nonneg
    phase_iff := h.phase_iff
    own := by rw [hm,Registry.size,List.take_left]
    kinds := by
      rw [hm,Registry.size,List.drop_left,Growth.kinds_added]
      rfl
    slack_names := hslack
    artificial_names := hartificial
    rows_length := h.rows_length
    placement := fun i hi j hj hlo => h.placement hc hi hj hlo
    increasing := h.ordered
    index_lt := hm ▸ hp.index_lt }⟩

end Tableau

namespace Solver

lemma wellFormed_mixedProgram : mixedProgram.WellFormed where
  toCovered := covered_mixedProgram
  positive := by decide
  names := by decide
  indices := by decide
  coefficients := by decide
  slack_free := by decide
  artificial_free := by decide

theorem build_faithful_mixed : mixedProgram.WellFormed ∧ ∃ t, Tableau.build mixedProgram = .ok t ∧
    t.Faithful mixedProgram ∧ (t.columns.members.filter fun v => v.kind == .artificial).map
      Variable.name = ["A1","A2","A3"] := by
  obtain ⟨t,hb,hfaithful⟩ := Tableau.build_faithful wellFormed_mixedProgram
  refine ⟨wellFormed_mixedProgram,t,hb,hfaithful,hfaithful.artificial_names.trans ?_⟩
  decide

end Solver

end LinProg
