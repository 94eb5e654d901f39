import LinProg.Proofs.Frame

/-!
Removal of the artificial columns in place. The matrix, the variables and the basis lose their
columns one after the other, by a numbering that is found before any of them is touched. So a row
that is solved for an artificial column stops the removal in time, and otherwise all three agree on
where a column has gone.
-/
namespace LinProg

namespace Tableau

lemma isArtificial_size (columns : Registry) : columns.isArtificial columns.size = false := by
  simp [Registry.isArtificial,Registry.at?,Registry.size]

/-- The new numbers of the first columns, none for those that go, and the columns that stay. -/
structure Numbering where
  remap : List (Option ℕ) := []
  keep : List ℕ := []

namespace Numbering

/-- A column that stays gets the number of those that stay in front of it. -/
def add (n : Numbering) (c : ℕ) (stays : Bool) : Numbering :=
  if stays then ⟨n.remap ++ [some n.keep.length],n.keep ++ [c]⟩ else ⟨n.remap ++ [none],n.keep⟩

/-- The numbering for a matrix of a given width. Its last column, the right-hand side, stays. -/
def ofWidth (columns : Registry) (width : ℕ) : Numbering :=
  (List.range width).foldl
    (fun n c => n.add c (c == width-1 || !columns.isArtificial c)) {}

lemma foldl_add (stays : ℕ → Bool) (width : ℕ) :
    (List.range width).foldl (fun n c => n.add c (stays c)) ({} : Numbering) =
      ⟨(List.range width).map fun c =>
          if stays c then some ((List.range c).filter stays).length else none,
        (List.range width).filter stays⟩ := by
  induction width with
  | zero => rfl
  | succ width ih =>
    rw [List.range_succ,List.foldl_append,ih]
    simp only [List.foldl_cons,List.foldl_nil,List.map_append,List.filter_append]
    cases h : stays width <;> simp [add,h]

/-- The right-hand side is not among the columns, so the artificial ones are all that go. -/
lemma ofWidth_eq (columns : Registry) : ofWidth columns (columns.size+1) =
    ⟨(List.range (columns.size+1)).map fun c =>
        if columns.isArtificial c then none else some (keptBefore columns c),
      (List.range (columns.size+1)).filter fun c => !columns.isArtificial c⟩ := by
  have hstays (c : ℕ) : (c == columns.size+1-1 || !columns.isArtificial c) =
      !columns.isArtificial c := by
    rcases eq_or_ne c columns.size with rfl | hc
    · simp [isArtificial_size]
    · simp [hc]
  simp only [ofWidth,hstays]
  rw [foldl_add fun c => !columns.isArtificial c]
  congr 1
  apply List.map_congr_left
  intro c _
  cases h : columns.isArtificial c <;> simp [keptBefore]

/-- The new number of a basic column, or else the name of its variable. -/
def newBasic (n : Numbering) (columns : Registry) (c : ℕ) : Except String ℕ :=
  match n.remap[c]?.join with
  | some k => .ok k
  | none => .error (((columns.at? c).map Variable.name).getD "")

end Numbering

structure Parts (K : Type) where
  matrix : List (List K)
  columns : Registry
  basis : List ℕ

variable {K : Type}

def parts (t : Tableau K) : Parts K := ⟨t.matrix,t.columns,t.basis⟩

namespace Parts

def numbering (s : Parts K) : Numbering := .ofWidth s.columns (s.matrix.headD []).length

def newBasis (s : Parts K) : Except String (List ℕ) :=
  s.basis.mapM (s.numbering.newBasic s.columns)

def renumber (n : Numbering) (basis : List ℕ) : ExceptT String (StateM (Parts K)) Unit := do
  modify fun s => { s with matrix := s.matrix.map fun row => n.keep.filterMap (row[·]?) }
  modify fun s => { s with columns := s.columns.retain fun v => !v.isArtificial }
  modify fun s => { s with basis }

/-- Removes the artificial columns in place. Only the new basis can fail, and it comes first. -/
def remove : ExceptT String (StateM (Parts K)) Unit := do
  let s ← get
  let basis ← ofExcept s.newBasis
  renumber s.numbering basis

lemma run_get_bind {σ ε α : Type} (f : σ → ExceptT ε (StateM σ) α) (s : σ) :
    ((get : ExceptT ε (StateM σ) σ) >>= f).run.run s = (f s).run.run s := rfl

/-- Whether a removal goes on to change anything depends on the new basis only. -/
lemma run_remove (s : Parts K) : remove.run.run s =
    match s.newBasis with
    | .error name => (.error name,s)
    | .ok basis => (.ok (),{
        matrix := s.matrix.map fun row => s.numbering.keep.filterMap (row[·]?)
        columns := s.columns.retain fun v => !v.isArtificial
        basis }) := by
  rw [remove,run_get_bind]
  cases s.newBasis <;> rfl

end Parts

/-- Row `i` is the first one that is solved for an artificial variable, and `v` is that variable. -/
structure StuckAt (t : Tableau K) (i : ℕ) (v : Variable) : Prop where
  basic : t.basis[i]?.bind t.columns.at? = some v
  artificial : v.kind = .artificial
  first : ∀ j < i, ∀ c, t.basis[j]? = some c → t.isArtificial c = false

/-- The columns of `u` are the columns of `t` that are not artificial, in the same order and with
the same contents. The new number of a column is `number`, also for the right-hand side. -/
structure Renumbered [Scalar K] (t u : Tableau K) (number : ℕ → ℕ) : Prop where
  members : u.columns.members = t.columns.members.filter fun v => v.kind != .artificial
  increasing : ∀ c c', t.isArtificial c = false → c < c' → number c < number c'
  onto : ∀ k < u.columns.size, ∃ c < t.columns.size, t.isArtificial c = false ∧ number c = k
  rhsColumn : number t.rhsColumn = u.rhsColumn
  column : ∀ c < t.columns.size, t.isArtificial c = false →
    u.columns.at? (number c) = t.columns.at? c
  height : u.matrix.length = t.matrix.length
  entry : ∀ (i : ℕ), ∀ c ≤ t.columns.size, t.isArtificial c = false →
    (u.matrix[i]?.bind fun row : List K => row[number c]?) =
      t.matrix[i]?.bind fun row : List K => row[c]?
  basis : u.basis = t.basis.map number
  basicVariable : ∀ i : ℕ, u.basis[i]?.bind u.columns.at? = t.basis[i]?.bind t.columns.at?
  value : ∀ c < t.columns.size, t.isArtificial c = false → u.valueOf (number c) = t.valueOf c
  settings : u.phase = t.phase ∧ u.minimizes = t.minimizes ∧ u.objective = t.objective ∧
    u.goal = t.goal

/-- The first artificial basic column decides about the name in the report. -/
lemma basicArtificial?_eq (t : Tableau K) : t.basicArtificial? =
    (t.basis.find? t.isArtificial).map fun c => ((t.columns.at? c).map Variable.name).getD "" := by
  unfold basicArtificial? basis
  induction t.rows with
  | nil => rfl
  | cons row rows ih =>
    rw [List.findSome?_cons,List.map_cons,List.find?_cons]
    simp only [Tableau.isArtificial,Registry.isArtificial]
    cases hv : t.columns.at? row.basic with
    | none => exact ih
    | some v =>
      cases hart : v.isArtificial
      · simpa [Option.filter,hart] using ih
      · simp [Option.filter,hart,hv]

/-- The new basis, or the name for the first of its columns that goes. -/
lemma mapM_newBasic {columns : Registry} {basis : List ℕ} (h : ∀ c ∈ basis, c < columns.size) :
    basis.mapM ((Numbering.ofWidth columns (columns.size+1)).newBasic columns) =
      match basis.find? columns.isArtificial with
      | some c => .error (((columns.at? c).map Variable.name).getD "")
      | none => .ok (basis.map (keptBefore columns)) := by
  induction basis with
  | nil => rfl
  | cons c basis ih =>
    obtain ⟨hc,hrest⟩ := List.forall_mem_cons.mp h
    have hremap : (Numbering.ofWidth columns (columns.size+1)).remap[c]?.join =
        if columns.isArtificial c then none else some (keptBefore columns c) := by
      rw [Numbering.ofWidth_eq]
      simp [List.getElem?_range (Nat.lt_succ_of_lt hc)]
    rw [List.mapM_cons,ih hrest,Numbering.newBasic,hremap,List.find?_cons]
    cases hart : columns.isArtificial c
    · cases basis.find? columns.isArtificial <;> rfl
    · rfl

lemma filterMap_getElem?_eq_keptEntries (columns : Registry) (l : List K) :
    ((List.range l.length).filter fun c => !columns.isArtificial c).filterMap (l[·]?) =
      keptEntries columns l := by
  induction l using List.reverseRecOn with
  | nil => rfl
  | append_singleton l a ih =>
    rw [Row.keptEntries_concat,← ih,List.length_append,List.length_singleton,List.range_succ,
      List.filter_append,List.filterMap_append]
    congr 1
    · apply List.filterMap_congr
      intro c hc
      rw [List.getElem?_append_left (List.mem_range.mp (List.mem_of_mem_filter hc))]
    · cases h : columns.isArtificial l.length <;> simp [h]

/-- The right-hand side of a whole row stays at its end. -/
lemma keptEntries_toList {columns : Registry} {r : Row K} (hr : r.entries.length = columns.size) :
    keptEntries columns r.toList = (Row.mk (keptEntries columns r.entries) r.rhs).toList := by
  rw [Row.toList,Row.keptEntries_concat,hr,isArtificial_size]
  rfl

section Frame
variable {t : Tableau K} (ht : t.Framed)
include ht

lemma Framed.numbering_parts : t.parts.numbering = .ofWidth t.columns (t.columns.size+1) := by
  rw [← ht.costs_length,← Row.length_toList]
  rfl

lemma Framed.newBasis_parts : t.parts.newBasis =
    match t.basicArtificial? with
    | some name => .error name
    | none => .ok (t.basis.map (keptBefore t.columns)) := by
  have hbasis : ∀ c ∈ t.basis, c < t.columns.size := List.forall_mem_map.mpr ht.basic_lt
  rw [Parts.newBasis,ht.numbering_parts,basicArtificial?_eq]
  refine (mapM_newBasic hbasis).trans ?_
  change (match t.basis.find? t.isArtificial with | some c => _ | none => _) = _
  cases t.basis.find? t.isArtificial <;> rfl

/-- The rows of the matrix keep their entries in the columns that stay, and their values. -/
lemma Framed.filterMap_keep {r : Row K} (hr : r.entries.length = t.columns.size) :
    t.parts.numbering.keep.filterMap (r.toList[·]?) =
      (Row.mk (keptEntries t.columns r.entries) r.rhs).toList := by
  rw [← keptEntries_toList hr,← filterMap_getElem?_eq_keptEntries,Row.length_toList,hr,
    ht.numbering_parts,Numbering.ofWidth_eq]

/-- The removal in place does what the removal from a whole tableau says. -/
theorem Framed.run_remove : Parts.remove.run.run t.parts =
    match t.removeArtificials with
    | .ok u => (.ok (),u.parts)
    | .error name => (.error name,t.parts) := by
  rw [Parts.run_remove,ht.newBasis_parts,Tableau.removeArtificials]
  cases t.basicArtificial? with
  | some name => rfl
  | none =>
    simp only [parts,matrix,basis,List.map_cons,List.map_map,Function.comp_def]
    congr 3
    · exact ht.filterMap_keep ht.costs_length
    · exact List.map_congr_left fun r hr => ht.filterMap_keep (ht.row_length r hr)

end Frame

lemma keptBefore_inj {columns : Registry} {c c' : ℕ} (hc : columns.isArtificial c = false)
    (hc' : columns.isArtificial c' = false) :
    keptBefore columns c = keptBefore columns c' ↔ c = c' := by
  refine ⟨fun h => ?_,congrArg _⟩
  rcases lt_trichotomy c c' with hlt | heq | hgt
  · exact absurd h (keptBefore_lt hc hlt).ne
  · exact heq
  · exact absurd h (keptBefore_lt hc' hgt).ne'

/-- A column that stays is found under its new number. -/
lemma at?_keptBefore {columns : Registry} {c : ℕ} (h : c < columns.size)
    (hc : columns.isArtificial c = false) :
    (columns.retain fun v => !v.isArtificial).at? (keptBefore columns c) = columns.at? c := by
  have hv : columns.at? c = some columns.members[c] := List.getElem?_eq_getElem h
  rw [hv]
  exact at?_retain hv (by simpa [Registry.isArtificial,hv] using hc)

/-- So is its entry in a whole row, and so is the right-hand side. -/
lemma getElem?_toList_keptEntries {columns : Registry} {r : Row K} {c : ℕ}
    (hr : r.entries.length = columns.size) (h : c ≤ columns.size)
    (hc : columns.isArtificial c = false) :
    (Row.mk (keptEntries columns r.entries) r.rhs).toList[keptBefore columns c]? =
      r.toList[c]? := by
  rw [← keptEntries_toList hr]
  exact Row.getElem?_keptEntries columns hc (by rw [Row.length_toList]; omega)

/-- The row that is solved for a column is found under its new number. -/
lemma find?_keptBefore {columns : Registry} {rows : List (BasicRow K)} {c : ℕ}
    (hrows : ∀ r ∈ rows, columns.isArtificial r.basic = false)
    (hc : columns.isArtificial c = false) :
    (rows.find? fun r => keptBefore columns r.basic == keptBefore columns c) =
      rows.find? (·.basic == c) :=
  List.find?_congr fun r hr => by
    rw [Bool.eq_iff_iff,beq_iff_eq,beq_iff_eq]
    exact keptBefore_inj (hrows r hr) hc

/-- The removal renumbers the columns and changes nothing else. -/
theorem Framed.renumbered [Scalar K] {t u : Tableau K} (ht : t.Framed)
    (h : t.removeArtificials = .ok u) : t.Renumbered u (keptBefore t.columns) := by
  unfold Tableau.removeArtificials at h
  split at h
  case h_1 => contradiction
  case h_2 hnone =>
    have hb := basicArtificial?_eq_none.mp hnone
    obtain rfl := Except.ok.inj h
    exact {
      members := rfl
      increasing := fun c c' hc hlt => keptBefore_lt hc hlt
      onto := fun k hk => exists_keptBefore (size_retain t.columns ▸ hk)
      rhsColumn := (Row.length_keptEntries _ _).symm
      column := fun c hlt hc => at?_keptBefore hlt hc
      height := by simp [matrix]
      entry := by
        intro i c hle hc
        cases i with
        | zero =>
          exact getElem?_toList_keptEntries ht.costs_length hle hc
        | succ i =>
          simp only [matrix,List.getElem?_cons_succ,List.getElem?_map]
          cases hrow : t.rows[i]? with
          | none => rfl
          | some row =>
            have hlength := ht.row_length row (List.mem_of_getElem? hrow)
            exact getElem?_toList_keptEntries hlength hle hc
      basis := by simp [basis]
      basicVariable := by
        intro i
        simp only [basis,List.getElem?_map]
        cases hrow : t.rows[i]? with
        | none => rfl
        | some row =>
          have hmem := List.mem_of_getElem? hrow
          exact at?_keptBefore (ht.basic_lt row hmem) (hb row hmem)
      value := by
        intro c hlt hc
        simp only [valueOf,List.find?_map,Function.comp_def,find?_keptBefore hb hc]
        cases t.rows.find? (·.basic == c) <;> rfl
      settings := ⟨rfl,rfl,rfl,rfl⟩ }

/-- The name in the report is that of the first artificial variable a row is solved for. -/
theorem exists_stuckAt {t : Tableau K} {name : String} (h : t.basicArtificial? = some name) :
    ∃ i v, t.StuckAt i v ∧ v.name = name := by
  rw [basicArtificial?_eq] at h
  obtain ⟨c,hfind,hname⟩ := Option.map_eq_some_iff.mp h
  obtain ⟨hc,i,hi,hget,hfirst⟩ := List.find?_eq_some_iff_getElem.mp hfind
  obtain ⟨v,hv,hart⟩ := (Option.any_eq_true _ _).mp hc
  rw [hv] at hname
  refine ⟨i,v,⟨?_,eq_of_beq hart,?_⟩,hname⟩
  · rw [List.getElem?_eq_getElem hi,hget]
    exact hv
  · intro j hj c' hc'
    obtain ⟨hlt,rfl⟩ := List.getElem?_eq_some_iff.mp hc'
    simpa using hfirst j hj

/-- The removal of the artificial columns is all or nothing, and only renumbers. If a row is solved
for an artificial column, it reports the first such row and changes nothing; otherwise it goes
through, and the other columns stay as they are under their new numbers. -/
theorem Framed.removal_all_or_nothing [Scalar K] {t : Tableau K} (ht : t.Framed) :
    ((∃ c ∈ t.basis, t.isArtificial c = true) → ∃ i v, t.StuckAt i v ∧
      t.removeArtificials = .error v.name ∧
      Parts.remove.run.run t.parts = (.error v.name,t.parts)) ∧
    ((∀ c ∈ t.basis, t.isArtificial c = false) → ∃ u, t.removeArtificials = .ok u ∧
      Parts.remove.run.run t.parts = (.ok (),u.parts) ∧ u.Framed ∧
      t.Renumbered u (keptBefore t.columns)) := by
  have hrun := ht.run_remove
  constructor
  · rintro ⟨c,hc,hart⟩
    obtain ⟨r,hr,rfl⟩ := List.mem_map.mp hc
    cases hname : t.basicArtificial? with
    | none =>
      rw [basicArtificial?_eq_none.mp hname r hr] at hart
      contradiction
    | some name =>
      obtain ⟨i,v,hstuck,rfl⟩ := exists_stuckAt hname
      have herror : t.removeArtificials = .error v.name := by
        rw [Tableau.removeArtificials,hname]
      rw [herror] at hrun
      exact ⟨i,v,hstuck,herror,hrun⟩
  · intro hb
    have hnone := basicArtificial?_eq_none.mpr (List.forall_mem_map.mp hb)
    obtain ⟨u,hu⟩ : ∃ u, t.removeArtificials = .ok u := by
      rw [Tableau.removeArtificials,hnone]
      exact ⟨_,rfl⟩
    rw [hu] at hrun
    exact ⟨u,hu,hrun,ht.removeArtificials hu,ht.renumbered hu⟩

/-- Artificial columns stand between and behind the others. The first row is solved for `basic`. -/
def interleaved (basic : ℕ) : Tableau Float where
  columns := ⟨[⟨"X1",1,.decision,none⟩,⟨"A1",2,.artificial,none⟩,⟨"X2",3,.decision,none⟩,
    ⟨"S1",4,.slack,none⟩,⟨"A2",5,.artificial,none⟩]⟩
  costs := ⟨[-1,2,0,0,0.5],7⟩
  rows := [⟨⟨[0.25,1,0,1,0],3⟩,basic⟩,⟨⟨[2,0,1,0,-1],4⟩,2⟩]
  phase := .two
  minimizes := true
  objective := .ofList [(1,1),(3,2)]
  goal := .objective

/-- Solved for `S1` and `X2`, the tableau keeps `X1`, `X2` and `S1`, and the values move along.
Solved for `A1` and `X2`, it stays as it is. -/
theorem removal_all_or_nothing_interleaved : (interleaved 3).Framed ∧ (interleaved 1).Framed ∧
    (∃ u, (interleaved 3).removeArtificials = .ok u ∧ u.basis = [2,1] ∧
      u.matrix[2]?.bind (·[3]?) = (interleaved 3).matrix[2]?.bind (·[5]?)) ∧
    (interleaved 1).removeArtificials = .error "A1" ∧
    Parts.remove.run.run (interleaved 1).parts = (.error "A1",(interleaved 1).parts) := by
  have hframed : (interleaved 3).Framed := ⟨rfl,by decide,by decide⟩
  have hframed' : (interleaved 1).Framed := ⟨rfl,by decide,by decide⟩
  have herror : (interleaved 1).removeArtificials = .error "A1" := rfl
  obtain ⟨u,hu,-,-,hr⟩ := hframed.removal_all_or_nothing.2 (by decide)
  obtain ⟨i,v,-,hname,hrun⟩ := hframed'.removal_all_or_nothing.1 (by decide)
  obtain hname := Except.error.inj (herror.symm.trans hname)
  refine ⟨hframed,hframed',⟨u,hu,?_,?_⟩,herror,?_⟩
  · rw [hr.basis]
    rfl
  · exact hr.entry 2 5 (by decide) (by decide)
  · rw [hname]
    exact hrun

end Tableau

end LinProg
