import LinProg.Proofs.Digits
import LinProg.Proofs.Layout

/-!
The variables of the added columns. Slack and surplus columns are numbered together, artificial
columns apart, so their names differ in more than the case of letters, and as long as the variables
of a program leave these names free, all columns can be added.
-/
namespace LinProg

namespace Text

lemma foldCase_toString (n : ℕ) : foldCase (toString n) = Nat.toDigits 10 n := by
  rw [foldCase,Nat.toString_eq_repr,Nat.toList_repr]
  conv_rhs => rw [← List.map_id (Nat.toDigits 10 n)]
  apply List.map_congr_left
  intro c hc
  exact toLower_of_isDigit (Decimal.isDigit_of_mem_toDigits hc)

lemma eq_of_toDigits {m n : ℕ} (h : Nat.toDigits 10 m = Nat.toDigits 10 n) : m = n := by
  have hread := congrArg (fun digits => Nat.ofDigitChars 10 digits 0) h
  simpa using hread

/-- Numbered names with one stem have different numbers. -/
lemma sameLetters_toString {stem : String} {m n : ℕ}
    (h : sameLetters (stem ++ toString m) (stem ++ toString n) = true) : m = n := by
  rw [sameLetters_iff,foldCase_append,foldCase_append,foldCase_toString,foldCase_toString] at h
  exact eq_of_toDigits (List.append_cancel_left h)

end Text

namespace Kind

/-- The letter in front of the numbers of the columns that are counted together with this kind. -/
def stem : Kind → String
  | .artificial => "A"
  | .decision | .slack | .surplus => "S"

/-- The name of the column with number `k` of a kind, counted from 0. -/
def nameAt (kind : Kind) (k : ℕ) : String := kind.stem ++ toString (k+1)

lemma length_stem (kind : Kind) : (Text.foldCase kind.stem).length = 1 := by
  cases kind <;> decide

lemma sameLetters_nameAt {kind kind' : Kind} {k k' : ℕ}
    (h : Text.sameLetters (kind.nameAt k) (kind'.nameAt k') = true) :
    kind.stem = kind'.stem ∧ k = k' := by
  rw [Text.sameLetters_iff,nameAt,nameAt,Text.foldCase_append,Text.foldCase_append,
    Text.foldCase_toString,Text.foldCase_toString] at h
  obtain ⟨hstem,hdigits⟩ := List.append_inj h (kind.length_stem.trans kind'.length_stem.symm)
  constructor
  · revert hstem
    cases kind <;> cases kind' <;> decide
  · exact Nat.succ_injective (Text.eq_of_toDigits hdigits)

end Kind

namespace Tableau

namespace Growth

/-- The number of columns so far that are counted together with a kind. -/
def count (g : Growth) : Kind → ℕ
  | .artificial => g.artificials
  | .decision | .slack | .surplus => g.slacks

def next (g : Growth) (kind : Kind) : Variable where
  name := kind.nameAt (g.count kind)
  index := g.columns.nextIndex
  kind := kind

def grow (g : Growth) (kind : Kind) : Growth where
  columns := ⟨g.columns.members ++ [g.next kind]⟩
  slacks := if kind = .artificial then g.slacks else g.slacks+1
  artificials := if kind = .artificial then g.artificials+1 else g.artificials

def added (g : Growth) : List Kind → List Variable
  | [] => []
  | kind::kinds => g.next kind::(g.grow kind).added kinds

lemma members_foldl_grow (g : Growth) (kinds : List Kind) :
    (kinds.foldl grow g).columns.members = g.columns.members ++ g.added kinds := by
  induction kinds generalizing g with
  | nil => simp [added]
  | cons kind kinds ih =>
    rw [List.foldl_cons,ih,added]
    simp [grow]

lemma count_congr (g : Growth) {kind kind' : Kind} (h : kind.stem = kind'.stem) :
    g.count kind = g.count kind' := by
  revert h
  cases kind <;> cases kind' <;> simp [Kind.stem,count]

lemma count_grow (g : Growth) (kind kind' : Kind) : (g.grow kind).count kind' =
    g.count kind' + if kind.stem = kind'.stem then 1 else 0 := by
  cases kind <;> cases kind' <;> rfl

lemma count_foldl_grow (g : Growth) (kinds : List Kind) (kind' : Kind) :
    (kinds.foldl grow g).count kind' = g.count kind'+kinds.countP (·.stem == kind'.stem) := by
  induction kinds generalizing g with
  | nil => rfl
  | cons kind kinds ih =>
    rw [List.foldl_cons,ih,count_grow,List.countP_cons]
    simp only [beq_iff_eq]
    omega

/-- The variable of a column is the next one behind the columns in front of it. -/
lemma getElem?_added (g : Growth) (kinds kinds' : List Kind) (kind : Kind) :
    (g.added (kinds ++ kind::kinds'))[kinds.length]? = some ((kinds.foldl grow g).next kind) := by
  induction kinds generalizing g with
  | nil => rfl
  | cons kind' kinds ih => exact ih (g.grow kind')

/-- Columns that are counted together are numbered without gaps. -/
lemma names_added (g : Growth) (kinds : List Kind) (kind' : Kind) :
    ((g.added kinds).filter fun v => v.kind.stem == kind'.stem).map Variable.name =
      (List.range' (g.count kind') (kinds.countP (·.stem == kind'.stem))).map kind'.nameAt := by
  induction kinds generalizing g with
  | nil => rfl
  | cons kind kinds ih =>
    rw [added,List.filter_cons,List.countP_cons]
    by_cases hstem : kind.stem = kind'.stem
    · have hname : (g.next kind).name = kind'.nameAt (g.count kind') := by
        rw [next,Kind.nameAt,Kind.nameAt,hstem,g.count_congr hstem]
      have hkind : (g.next kind).kind.stem == kind'.stem := by simpa [next] using hstem
      rw [if_pos hkind,if_pos (by simpa using hstem),List.range'_succ,List.map_cons,List.map_cons,
        ih,hname,count_grow,if_pos hstem]
    · have hkind : ¬ ((g.next kind).kind.stem == kind'.stem) = true := by
        simpa [next] using hstem
      rw [if_neg hkind,if_neg (by simpa using hstem),ih,count_grow,if_neg hstem,add_zero,add_zero]

lemma kinds_added (g : Growth) (kinds : List Kind) :
    (g.added kinds).map Variable.kind = kinds := by
  induction kinds generalizing g with
  | nil => rfl
  | cons kind kinds ih =>
    rw [added,List.map_cons,ih]
    rfl

lemma nextIndex_grow (g : Growth) (kind : Kind) :
    (g.grow kind).columns.nextIndex = g.columns.nextIndex+1 := by
  simp [grow,next,Registry.nextIndex]

/-- The indices of further columns follow on those there are. -/
lemma indices_added (g : Growth) (kinds : List Kind) :
    (g.added kinds).map Variable.index = List.range' g.columns.nextIndex kinds.length := by
  induction kinds generalizing g with
  | nil => rfl
  | cons kind kinds ih =>
    rw [added,List.map_cons,ih,nextIndex_grow,List.length_cons,List.range'_succ]
    rfl

/-- There is room for further columns of the given kinds: no variable has taken a name of theirs. -/
structure Room (g : Growth) (kinds : List Kind) : Prop where
  ordered : g.columns.Ordered
  free : ∀ (kind : Kind) (k : ℕ), g.count kind ≤ k →
    k < g.count kind + kinds.countP (·.stem == kind.stem) →
    ∀ v ∈ g.columns.members, v.isNamed (kind.nameAt k) = false

section Room
variable {g : Growth} {kind : Kind} {kinds : List Kind}

lemma Room.push (h : g.Room (kind::kinds)) :
    g.columns.push (kind.nameAt (g.count kind)) kind = .ok (g.grow kind).columns :=
  h.ordered.push_of_free (h.free kind _ le_rfl (by simp)) kind

/-- The new name is none of those that follow: these have another letter or a greater number. -/
lemma Room.grow (h : g.Room (kind::kinds)) : (g.grow kind).Room kinds where
  ordered := (h.ordered.push h.push).2
  free kind' k hlo hhi v hv := by
    rw [count_grow] at hlo hhi
    rcases List.mem_append.mp hv with hv | hv
    · refine h.free kind' k (by omega) ?_ v hv
      rw [List.countP_cons]
      simp only [beq_iff_eq]
      omega
    · obtain rfl := List.mem_singleton.mp hv
      rw [Bool.eq_false_iff]
      intro hnamed
      obtain ⟨hstem,hk⟩ := Kind.sameLetters_nameAt hnamed
      rw [if_pos hstem,← g.count_congr hstem] at hlo
      omega

/-- If the next name is free and there is room behind it, then there was room for both. -/
lemma Room.of_grow (hg : g.columns.Ordered)
    (hfree : ∀ v ∈ g.columns.members, v.isNamed (kind.nameAt (g.count kind)) = false)
    (h : (g.grow kind).Room kinds) : g.Room (kind::kinds) where
  ordered := hg
  free kind' k hlo hhi v hv := by
    rw [List.countP_cons] at hhi
    by_cases hnext : kind.stem = kind'.stem ∧ k = g.count kind'
    · obtain ⟨hstem,rfl⟩ := hnext
      have hname : kind'.nameAt (g.count kind') = kind.nameAt (g.count kind) := by
        rw [Kind.nameAt,Kind.nameAt,hstem,g.count_congr hstem]
      rw [hname]
      exact hfree v hv
    · have hbounds : (g.grow kind).count kind' ≤ k ∧
          k < (g.grow kind).count kind' + kinds.countP (·.stem == kind'.stem) := by
        rw [count_grow]
        simp only [beq_iff_eq] at hhi
        by_cases hstem : kind.stem = kind'.stem
        · rw [if_pos hstem] at hhi ⊢
          have : k ≠ g.count kind' := fun hk => hnext ⟨hstem,hk⟩
          omega
        · rw [if_neg hstem] at hhi ⊢
          omega
      exact h.free kind' k hbounds.1 hbounds.2 v (List.mem_append_left _ hv)

/-- The name of the next slack or surplus column, as it is put together where columns are added. -/
lemma nameAt_slacks (g : Growth) (hkind : kind ≠ .artificial) :
    kind.nameAt (g.count kind) = "S" ++ toString (g.slacks+1) := by
  cases kind with
  | artificial => contradiction
  | decision | slack | surplus => rw [Kind.nameAt,Kind.stem,count]

lemma nameAt_artificials (g : Growth) :
    Kind.artificial.nameAt (g.count .artificial) = "A" ++ toString (g.artificials+1) := by
  rw [Kind.nameAt,Kind.stem,count]

lemma grow_slack (g : Growth) (hkind : kind ≠ .artificial) :
    { g with columns := (g.grow kind).columns, slacks := g.slacks+1 } = g.grow kind := by
  rw [grow,if_neg hkind,if_neg hkind]

lemma Room.addSlack (h : g.Room (kind::kinds)) (hkind : kind ≠ .artificial) :
    g.addSlack kind = .ok (g.grow kind) := by
  have hpush := h.push
  rw [nameAt_slacks g hkind] at hpush
  rw [Growth.addSlack,Except.bind_eq_ok]
  exact ⟨_,hpush,congrArg Except.ok (g.grow_slack hkind)⟩

lemma Room.addArtificial (h : g.Room (.artificial::kinds)) :
    g.addArtificial = .ok (g.grow .artificial) := by
  have hpush := h.push
  rw [nameAt_artificials] at hpush
  rw [Growth.addArtificial,Except.bind_eq_ok]
  exact ⟨_,hpush,rfl⟩

/-- A column that could be pushed is the next one, and its name was free. -/
lemma grow_of_push (hg : g.columns.Ordered) {columns : Registry}
    (h : g.columns.push (kind.nameAt (g.count kind)) kind = .ok columns) :
    columns = (g.grow kind).columns ∧
      ∀ v ∈ g.columns.members, v.isNamed (kind.nameAt (g.count kind)) = false := by
  refine ⟨?_,Registry.free_of_push h⟩
  obtain ⟨hmembers,-⟩ := hg.push h
  cases columns
  exact congrArg Registry.mk hmembers

lemma grow_of_addSlack {g' : Growth} (hg : g.columns.Ordered) (hkind : kind ≠ .artificial)
    (h : g.addSlack kind = .ok g') : g' = g.grow kind ∧
      ∀ v ∈ g.columns.members, v.isNamed (kind.nameAt (g.count kind)) = false := by
  obtain ⟨columns,hpush,h⟩ := Except.bind_eq_ok.mp h
  rw [← nameAt_slacks g hkind] at hpush
  obtain ⟨rfl,hfree⟩ := grow_of_push hg hpush
  exact ⟨(Except.ok.inj h).symm.trans (g.grow_slack hkind),hfree⟩

lemma grow_of_addArtificial {g' : Growth} (hg : g.columns.Ordered)
    (h : g.addArtificial = .ok g') : g' = g.grow .artificial ∧ ∀ v ∈ g.columns.members,
      v.isNamed (Kind.artificial.nameAt (g.count .artificial)) = false := by
  obtain ⟨columns,hpush,h⟩ := Except.bind_eq_ok.mp h
  rw [← nameAt_artificials] at hpush
  obtain ⟨rfl,hfree⟩ := grow_of_push hg hpush
  exact ⟨(Except.ok.inj h).symm,hfree⟩

end Room

end Growth

variable {K : Type} [Scalar K] {g g' : Growth}

lemma Growth.Room.supplement {r : Relation} {kinds : List Kind}
    (h : g.Room (r.addedKinds ++ kinds)) :
    (∃ s : Supplement K, Tableau.supplement g r = .ok (r.addedKinds.foldl Growth.grow g,s)) ∧
      (r.addedKinds.foldl Growth.grow g).Room kinds := by
  cases r with
  | atMost => exact ⟨⟨_,Except.bind_eq_ok.mpr ⟨_,h.addSlack (by decide),rfl⟩⟩,h.grow⟩
  | atLeast =>
    exact ⟨⟨_,Except.bind_eq_ok.mpr ⟨_,h.addSlack (by decide),
      Except.bind_eq_ok.mpr ⟨_,h.grow.addArtificial,rfl⟩⟩⟩,h.grow.grow⟩
  | equal => exact ⟨⟨_,Except.bind_eq_ok.mpr ⟨_,h.addArtificial,rfl⟩⟩,h.grow⟩

/-- With room for them, the columns of all constraints are added. -/
theorem Growth.Room.supplements {cs : List (Constraint K)}
    (h : g.Room (cs.flatMap fun c => c.rowRelation.addedKinds)) : ∃ ss, Tableau.supplements g cs =
      .ok ((cs.flatMap fun c => c.rowRelation.addedKinds).foldl Growth.grow g,ss) := by
  induction cs generalizing g with
  | nil => exact ⟨[],rfl⟩
  | cons c cs ih =>
    rw [List.flatMap_cons] at h ⊢
    obtain ⟨⟨s,hfirst⟩,hroom⟩ := h.supplement (K := K)
    obtain ⟨ss,hrest⟩ := ih hroom
    refine ⟨s::ss,Except.bind_eq_ok.mpr ⟨_,hfirst,Except.bind_eq_ok.mpr ⟨_,hrest,?_⟩⟩⟩
    rw [List.foldl_append]
    rfl

/-- The columns that were added for a row are the next ones, and there was room for them. -/
lemma grow_of_supplement (hg : g.columns.Ordered) {r : Relation} {s : Supplement K}
    (h : Tableau.supplement g r = .ok (g',s)) : g' = r.addedKinds.foldl Growth.grow g ∧
      ∀ kinds, g'.Room kinds → g.Room (r.addedKinds ++ kinds) := by
  cases r with
  | atMost =>
    obtain ⟨g₁,h₁,h⟩ := Except.bind_eq_ok.mp h
    obtain ⟨rfl,-⟩ := Prod.mk.inj (Except.ok.inj h)
    obtain ⟨rfl,hfree⟩ := Growth.grow_of_addSlack hg (by decide) h₁
    exact ⟨rfl,fun kinds hroom => hroom.of_grow hg hfree⟩
  | atLeast =>
    obtain ⟨g₁,h₁,h⟩ := Except.bind_eq_ok.mp h
    obtain ⟨g₂,h₂,h⟩ := Except.bind_eq_ok.mp h
    obtain ⟨rfl,-⟩ := Prod.mk.inj (Except.ok.inj h)
    have ho := (Growth.addSlack_eq_ok hg (by decide) h₁).ordered
    obtain ⟨rfl,hsurplus⟩ := Growth.grow_of_addSlack hg (by decide) h₁
    obtain ⟨rfl,hartificial⟩ := Growth.grow_of_addArtificial ho h₂
    exact ⟨rfl,fun kinds hroom => (hroom.of_grow ho hartificial).of_grow hg hsurplus⟩
  | equal =>
    obtain ⟨g₁,h₁,h⟩ := Except.bind_eq_ok.mp h
    obtain ⟨rfl,-⟩ := Prod.mk.inj (Except.ok.inj h)
    obtain ⟨rfl,hfree⟩ := Growth.grow_of_addArtificial hg h₁
    exact ⟨rfl,fun kinds hroom => hroom.of_grow hg hfree⟩

/-- If the columns of all constraints could be added, there was room for them. -/
theorem Growth.Room.of_supplements (hg : g.columns.Ordered) {cs : List (Constraint K)}
    {ss : List (Supplement K)} (h : Tableau.supplements g cs = .ok (g',ss)) :
    g.Room (cs.flatMap fun c => c.rowRelation.addedKinds) := by
  induction cs generalizing g ss with
  | nil => exact ⟨hg,fun kind k hlo hhi => absurd hhi (not_lt.mpr hlo)⟩
  | cons c cs ih =>
    obtain ⟨⟨g₁,s⟩,h₁,h⟩ := Except.bind_eq_ok.mp h
    obtain ⟨⟨g₂,ss'⟩,h₂,h⟩ := Except.bind_eq_ok.mp h
    obtain ⟨rfl,-⟩ := Prod.mk.inj (Except.ok.inj h)
    rw [List.flatMap_cons]
    exact (grow_of_supplement hg h₁).2 _ (ih (adds_of_supplement hg h₁).1.ordered h₂)

section Clashes
variable {kind : Kind} {kinds : List Kind} {name : String} {m : Misuse}

/-- A variable has the name of one of the further columns. -/
def Growth.Clashes (g : Growth) (kinds : List Kind) (name : String) : Prop :=
  (∃ (kind : Kind) (k : ℕ), name = kind.nameAt k ∧ g.count kind ≤ k ∧
    k < g.count kind + kinds.countP (·.stem == kind.stem)) ∧
  ∃ v ∈ g.columns.members, v.isNamed name = true

lemma Growth.Room.not_clashes (h : g.Room kinds) : ¬ g.Clashes kinds name := by
  rintro ⟨⟨kind,k,rfl,hlo,hhi⟩,v,hv,hnamed⟩
  rw [h.free kind k hlo hhi v hv] at hnamed
  contradiction

lemma Growth.clashes_of_push (hg : g.columns.Ordered)
    (h : g.columns.push (kind.nameAt (g.count kind)) kind = .error m) (kinds : List Kind) :
    ∃ name, m = .nameTaken name ∧ g.Clashes (kind::kinds) name := by
  obtain ⟨rfl,htaken⟩ := hg.push_eq_error h
  exact ⟨_,rfl,⟨kind,_,rfl,le_rfl,by simp⟩,htaken⟩

/-- The new column itself clashes with none of those that follow. -/
lemma Growth.Clashes.of_grow (h : (g.grow kind).Clashes kinds name) :
    g.Clashes (kind::kinds) name := by
  obtain ⟨⟨kind',k,rfl,hlo,hhi⟩,v,hv,hnamed⟩ := h
  rw [count_grow] at hlo hhi
  refine ⟨⟨kind',k,rfl,by omega,?_⟩,v,?_,hnamed⟩
  · rw [List.countP_cons]
    simp only [beq_iff_eq]
    omega
  · rcases List.mem_append.mp hv with hv | hv
    · exact hv
    · obtain rfl := List.mem_singleton.mp hv
      obtain ⟨hstem,hk⟩ := Kind.sameLetters_nameAt hnamed
      rw [if_pos hstem,← g.count_congr hstem] at hlo
      omega

lemma Growth.Clashes.of_foldl {kinds' : List Kind}
    (h : (kinds'.foldl Growth.grow g).Clashes kinds name) : g.Clashes (kinds' ++ kinds) name := by
  induction kinds' generalizing g with
  | nil => exact h
  | cons kind kinds' ih => exact (ih h).of_grow

lemma Growth.clashes_of_addSlack (hg : g.columns.Ordered) (hkind : kind ≠ .artificial)
    (h : g.addSlack kind = .error m) (kinds : List Kind) :
    ∃ name, m = .nameTaken name ∧ g.Clashes (kind::kinds) name := by
  rcases Except.bind_eq_error.mp h with h | ⟨columns,-,h⟩
  · rw [← nameAt_slacks g hkind] at h
    exact clashes_of_push hg h kinds
  · contradiction

lemma Growth.clashes_of_addArtificial (hg : g.columns.Ordered) (h : g.addArtificial = .error m)
    (kinds : List Kind) :
    ∃ name, m = .nameTaken name ∧ g.Clashes (.artificial::kinds) name := by
  rcases Except.bind_eq_error.mp h with h | ⟨columns,-,h⟩
  · rw [← nameAt_artificials] at h
    exact clashes_of_push hg h kinds
  · contradiction

lemma supplement_eq_error (hg : g.columns.Ordered) {r : Relation}
    (h : (supplement g r : Except Misuse (Growth × Supplement K)) = .error m)
    (kinds : List Kind) : ∃ name, m = .nameTaken name ∧ g.Clashes (r.addedKinds ++ kinds) name := by
  cases r with
  | atMost =>
    rcases Except.bind_eq_error.mp h with h | ⟨g₁,-,h⟩
    · exact Growth.clashes_of_addSlack hg (by decide) h kinds
    · contradiction
  | atLeast =>
    rcases Except.bind_eq_error.mp h with h | ⟨g₁,h₁,h⟩
    · exact Growth.clashes_of_addSlack hg (by decide) h _
    rcases Except.bind_eq_error.mp h with h | ⟨g₂,-,h⟩
    · have ho := (Growth.addSlack_eq_ok hg (by decide) h₁).ordered
      obtain ⟨rfl,-⟩ := Growth.grow_of_addSlack hg (by decide) h₁
      obtain ⟨name,hm,hclash⟩ := Growth.clashes_of_addArtificial ho h kinds
      exact ⟨name,hm,hclash.of_grow⟩
    · contradiction
  | equal =>
    rcases Except.bind_eq_error.mp h with h | ⟨g₁,-,h⟩
    · exact Growth.clashes_of_addArtificial hg h kinds
    · contradiction

/-- Nothing but a name that is taken can keep the columns from being added. -/
theorem supplements_eq_error (hg : g.columns.Ordered) {cs : List (Constraint K)}
    (h : supplements g cs = .error m) : ∃ name, m = .nameTaken name ∧
      g.Clashes (cs.flatMap fun c => c.rowRelation.addedKinds) name := by
  induction cs generalizing g with
  | nil => contradiction
  | cons c cs ih =>
    rw [List.flatMap_cons]
    rcases Except.bind_eq_error.mp h with h | ⟨⟨g₁,s⟩,h₁,h⟩
    · exact supplement_eq_error hg h _
    rcases Except.bind_eq_error.mp h with h | ⟨⟨g₂,ss⟩,-,h⟩
    · obtain ⟨name,hm,hclash⟩ := ih (adds_of_supplement hg h₁).1.ordered h
      rw [(grow_of_supplement hg h₁).1] at hclash
      exact ⟨name,hm,hclash.of_foldl⟩
    · contradiction

end Clashes

/-- The columns that were added for all constraints are the next ones. -/
lemma eq_foldl_of_supplements (hg : g.columns.Ordered) {cs : List (Constraint K)}
    {ss : List (Supplement K)} (h : supplements g cs = .ok (g',ss)) :
    g' = (cs.flatMap fun c => c.rowRelation.addedKinds).foldl Growth.grow g := by
  obtain ⟨ss',h'⟩ := (Growth.Room.of_supplements hg h).supplements
  exact congrArg Prod.fst (Except.ok.inj (h.symm.trans h'))

end Tableau

end LinProg
