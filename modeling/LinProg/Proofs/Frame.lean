import LinProg.Proofs.AddedNames
import LinProg.Proofs.History

/-!
The frame of a tableau: its rows have an entry for each column, and each is solved for one of them.
Every operation of a solve keeps the frame, whatever the arithmetic, so all positions that a solve
looks at are in range.
-/
namespace LinProg

namespace Tableau
variable {K : Type}

/-- All rows have an entry for each column, and the basic columns are among the columns. -/
structure Framed (t : Tableau K) : Prop where
  costs_length : t.costs.entries.length = t.columns.size
  row_length : ∀ r ∈ t.rows, r.entries.length = t.columns.size
  basic_lt : ∀ r ∈ t.rows, r.basic < t.columns.size

/-- Rows taken into the costs one by one keep their length. -/
lemma length_foldl_costs {f : Row K → BasicRow K → Row K} {rows : List (BasicRow K)} {costs : Row K}
    (hf : ∀ costs row, row.entries.length = costs.entries.length →
      (f costs row).entries.length = costs.entries.length)
    (h : ∀ r ∈ rows, r.entries.length = costs.entries.length) :
    (rows.foldl f costs).entries.length = costs.entries.length := by
  induction rows generalizing costs with
  | nil => rfl
  | cons r rows ih =>
    have hfirst := hf costs r (h r (by simp))
    rw [List.foldl_cons,ih fun r' hr' => (h r' (List.mem_cons_of_mem r hr')).trans hfirst.symm]
    exact hfirst

section Operations
variable [Scalar K] {t : Tableau K} (ht : t.Framed)
include ht

lemma Framed.negateCosts : t.negateCosts.Framed where
  costs_length := (Row.length_entries_map _ t.costs).trans ht.costs_length
  row_length := ht.row_length
  basic_lt := ht.basic_lt

lemma Framed.pivot {p : Pivot} (hp : p.column < t.columns.size) : (t.pivot p).Framed := by
  unfold Tableau.pivot
  split
  case h_1 => exact ht
  case h_2 row hrow =>
    have hlead : (row.toRow.map (· / row.entry p.column)).entries.length = t.columns.size :=
      (Row.length_entries_map _ _).trans (ht.row_length row (List.mem_of_getElem? hrow))
    refine ⟨?_,?_,?_⟩
    · exact (Row.length_entries_eliminate (ht.costs_length.trans hlead.symm) _).trans
        ht.costs_length
    · intro r hr
      obtain ⟨i,hi,rfl⟩ := List.mem_mapIdx.mp hr
      have hlength := ht.row_length _ (List.getElem_mem hi)
      split
      · exact hlead
      · exact (Row.length_entries_eliminate (hlength.trans hlead.symm) _).trans hlength
    · intro r hr
      obtain ⟨i,hi,rfl⟩ := List.mem_mapIdx.mp hr
      split
      · exact hp
      · exact ht.basic_lt t.rows[i] (List.getElem_mem hi)

lemma Framed.enterObjective : t.enterObjective.Framed where
  costs_length := by
    have hlength : (objectiveCosts t.columns t.objective).entries.length = t.columns.size := by
      simp [objectiveCosts,Registry.size]
    exact (length_foldl_costs (fun costs row h => Row.length_entries_eliminate h.symm _)
      fun r hr => (ht.row_length r hr).trans hlength.symm).trans hlength
  row_length := ht.row_length
  basic_lt := ht.basic_lt

omit [Scalar K] in
lemma Framed.removeArtificials {u : Tableau K} (h : t.removeArtificials = .ok u) : u.Framed := by
  unfold Tableau.removeArtificials at h
  split at h
  case h_1 => contradiction
  case h_2 hnone =>
    have hb := basicArtificial?_eq_none.mp hnone
    obtain rfl := Except.ok.inj h
    refine ⟨?_,?_,?_⟩
    · change (keptEntries t.columns t.costs.entries).length = _
      rw [Row.length_keptEntries,ht.costs_length]
      exact (size_retain t.columns).symm
    · rw [List.forall_mem_map]
      intro r hr
      rw [Row.length_keptEntries,ht.row_length r hr]
      exact (size_retain t.columns).symm
    · rw [List.forall_mem_map]
      intro r hr
      dsimp only
      rw [size_retain]
      exact keptBefore_lt (hb r hr) (ht.basic_lt r hr)

end Operations

section Build
variable [Scalar K]

lemma constraintRow_framed {own : List Variable} {added number : ℕ} {c : Constraint K}
    {s : Supplement K} {row : BasicRow K} (h : constraintRow own added number c s = .ok row) :
    row.entries.length = own.length+added ∧ row.basic = s.basic := by
  obtain ⟨front,hfront,h⟩ := Except.bind_eq_ok.mp h
  obtain rfl := mapM_eq_ok (g := fun v => c.rowSign * (c.equation.get? v.index).getD 0)
    (fun v a hv => by split at hv <;> simp_all) hfront
  rw [← Except.ok.inj h]
  exact ⟨by simp,rfl⟩

lemma constraintRows_framed {own : List Variable} {added number : ℕ} {cs : List (Constraint K)}
    {ss : List (Supplement K)} {rows : List (BasicRow K)}
    (h : constraintRows own added number cs ss = .ok rows) : ∀ row ∈ rows,
      row.entries.length = own.length+added ∧ ∃ s ∈ ss, row.basic = s.basic := by
  induction cs generalizing number ss rows with
  | nil =>
    obtain rfl : [] = rows := Except.ok.inj h
    exact nofun
  | cons c cs ih =>
    cases ss with
    | nil =>
      obtain rfl : [] = rows := Except.ok.inj h
      exact nofun
    | cons s ss =>
      obtain ⟨row,hrow,h⟩ := Except.bind_eq_ok.mp h
      obtain ⟨rest,hrest,h⟩ := Except.bind_eq_ok.mp h
      obtain rfl := Except.ok.inj h
      obtain ⟨hlength,hbasic⟩ := constraintRow_framed hrow
      refine List.forall_mem_cons.mpr ⟨⟨hlength,s,by simp,hbasic⟩,fun row' hrow' => ?_⟩
      obtain ⟨hlength',s',hs',hbasic'⟩ := ih hrest row' hrow'
      exact ⟨hlength',s',List.mem_cons_of_mem s hs',hbasic'⟩

/-- Every row starts solved for a column that was added for it. -/
lemma basic_lt_of_supplements {g g' : Growth} (hg : g.columns.Ordered) {cs : List (Constraint K)}
    {ss : List (Supplement K)} (h : supplements g cs = .ok (g',ss)) :
    g.columns.size ≤ g'.columns.size ∧ ∀ s ∈ ss, s.basic < g'.columns.size := by
  induction cs generalizing g ss with
  | nil =>
    obtain ⟨rfl,rfl⟩ := Prod.mk.inj (Except.ok.inj h)
    exact ⟨le_rfl,nofun⟩
  | cons c cs ih =>
    obtain ⟨⟨g₁,s⟩,h₁,h⟩ := Except.bind_eq_ok.mp h
    obtain ⟨⟨g₂,ss'⟩,h₂,h⟩ := Except.bind_eq_ok.mp h
    obtain ⟨rfl,rfl⟩ := Prod.mk.inj (Except.ok.inj h)
    obtain ⟨hadds,hbasic⟩ := adds_of_supplement hg h₁
    obtain ⟨hle,hrest⟩ := ih hadds.ordered h₂
    have hsize := hadds.size
    exact ⟨by omega,List.forall_mem_cons.mpr ⟨by omega,hrest⟩⟩

/-- The first tableau has a frame. -/
theorem framed_of_build {p : Program K} {t : Tableau K} (h : build p = .ok t) : t.Framed := by
  obtain ⟨own,hown,h⟩ := Except.bind_eq_ok.mp h
  have ho : own.Ordered := Registry.Ordered.foldlM_insert List.Pairwise.nil hown
  obtain ⟨⟨g,ss⟩,hg,h⟩ := Except.bind_eq_ok.mp h
  obtain ⟨rows,hrows,h⟩ := Except.bind_eq_ok.mp h
  obtain rfl := Except.ok.inj h
  obtain ⟨hle,hbasic⟩ := basic_lt_of_supplements ho hg
  have hle' : own.members.length ≤ g.columns.size := hle
  have hlength : ∀ r ∈ rows, r.entries.length = g.columns.size := by
    intro r hr
    rw [(constraintRows_framed hrows r hr).1]
    change own.members.length+(g.columns.size-own.members.length) = _
    omega
  refine ⟨?_,hlength,?_⟩
  · dsimp only
    split
    · simp [objectiveCosts,Registry.size]
    · have hstart : (g.columns.members.map fun v => if v.isArtificial then (-1:K) else 0).length =
          g.columns.size := by simp [Registry.size]
      refine (length_foldl_costs ?_ fun r hr => ?_).trans hstart
      · intro costs row hrow
        simp [Row.zipWith,hrow]
      · exact (hlength r (List.mem_of_mem_filter hr)).trans hstart.symm
  · intro r hr
    obtain ⟨-,s,hs,hr⟩ := constraintRows_framed hrows r hr
    rw [hr]
    exact hbasic s hs

end Build

end Tableau

namespace Solver
variable {K : Type} [Scalar K] {s : Solver K} {t : Tableau K}

lemma entering?_lt {c : ℕ} (h : s.entering? t = some c) : c < t.costs.entries.length := by
  obtain ⟨best,hbest,rfl⟩ := Option.map_eq_some_iff.mp h
  obtain ⟨⟨a,j⟩,hmem,rfl⟩ := List.mem_map.mp (firstLeast_mem (Option.filter_eq_some_iff.mp hbest).1)
  exact (List.getElem?_eq_some_iff.mp (List.mk_mem_zipIdx_iff_getElem?.mp hmem)).1

lemma leaving?_lt {c i : ℕ} (h : s.leaving? t c = some i) : i < t.rows.length := by
  obtain ⟨best,hbest,rfl⟩ := Option.map_eq_some_iff.mp h
  obtain ⟨⟨row,j⟩,hmem,hratio⟩ := List.mem_filterMap.mp (firstLeast_mem hbest)
  obtain ⟨ratio,-,rfl⟩ := Option.map_eq_some_iff.mp hratio
  exact (List.getElem?_eq_some_iff.mp (List.mk_mem_zipIdx_iff_getElem?.mp hmem)).1

/-- Whatever can be done with a tableau concerns one of its columns, and one of its rows. -/
structure InRange (s : Solver K) (t : Tableau K) : Prop extends t.Framed where
  pivot_lt : ∀ p, s.verdict t = .pivot p → p.row < t.rows.length ∧ p.column < t.columns.size
  unbounded_lt : ∀ c, s.verdict t = .unbounded c → c < t.columns.size

theorem inRange_of_framed (s : Solver K) (ht : t.Framed) : s.InRange t where
  toFramed := ht
  pivot_lt p h := by
    unfold verdict at h
    split at h
    case h_1 => contradiction
    case h_2 c hc =>
      split at h
      case h_1 => contradiction
      case h_2 i hi =>
        obtain rfl := Verdict.pivot.inj h
        exact ⟨leaving?_lt hi,ht.costs_length ▸ entering?_lt hc⟩
  unbounded_lt c h := by
    unfold verdict at h
    split at h
    case h_1 => contradiction
    case h_2 c hc =>
      split at h
      case h_1 =>
        obtain rfl := Verdict.unbounded.inj h
        exact ht.costs_length ▸ entering?_lt hc
      case h_2 => contradiction

theorem preserves_framed (s : Solver K) : s.Preserves fun e => e.tableau.Framed where
  negate _ ht := ht.negateCosts
  pivot _ _ p _ hv ht := ht.pivot ((s.inRange_of_framed ht).pivot_lt p hv).2
  restore _ _ _ ht := ht.enterObjective
  remove _ _ hu ht := ht.removeArtificials hu

/-- If the first tableau has a frame, a solve never leaves the range of the tableau at hand. -/
theorem inRange_history (s : Solver K) (ht : t.Framed) : ∀ e ∈ s.history t, s.InRange e.tableau :=
  fun e he => s.inRange_of_framed (s.preserves_framed.history (fun _ => ht) (fun _ => ht) e he)

end Solver

end LinProg
