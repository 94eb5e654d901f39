import LinProg.Proofs.RegistryOrder

/-!
Search by halving. In a registry that is in the order of its indices it finds the position of an
index, or the one where the index is missing; an insertion goes to that position.
-/
namespace LinProg

namespace Registry

/-- Halves a stretch of `size` positions from `base` on, and keeps the half in which the index has
to be, until one position is left. -/
def narrow (r : Registry) (index base size : ℕ) : ℕ :=
  if size ≤ 1 then base
  else if (r.at? (base+size/2)).any (index < ·.index) then r.narrow index base (size-size/2)
  else r.narrow index (base+size/2) (size-size/2)
termination_by size

/-- The position of an index, or else, as the error, the one where it is missing. -/
def search (r : Registry) (index : ℕ) : Except ℕ ℕ :=
  let base := r.narrow index 0 r.size
  match r.at? base with
  | none => .error base
  | some v =>
    if v.index = index then .ok base
    else if v.index < index then .error (base+1)
    else .error base

def insertBySearch (r : Registry) (v : Variable) : Except Misuse Registry :=
  if v.index = 0 then .error .zeroIndex
  else if r.members.any (·.isNamed v.name) then .error (.nameTaken v.name)
  else match r.search v.index with
    | .ok _ => .error (.indexTaken v.index)
    | .error j => .ok ⟨r.members.insertIdx j v⟩

def Locates (r : Registry) (index : ℕ) : Except ℕ ℕ → Prop
  | .ok j => ∃ hj : j < r.members.length, r.members[j].index = index
  | .error j => j ≤ r.members.length ∧
    (∀ (k : ℕ) (hk : k < r.members.length), k < j → r.members[k].index < index) ∧
    ∀ (k : ℕ) (hk : k < r.members.length), j ≤ k → index < r.members[k].index

section Search
variable {r : Registry} {index base size : ℕ}

lemma Ordered.index_lt (hr : r.Ordered) {j k : ℕ} (hk : k < r.members.length) (h : j < k) :
    r.members[j].index < r.members[k].index :=
  List.pairwise_iff_getElem.mp hr j k (h.trans hk) hk h

/-- The position that is left is the last one whose index is not greater, if there is one. Behind
the stretch all indices are greater, and at its start none is unless it is the first position. -/
lemma Ordered.narrow_spec (hr : r.Ordered) (hsize : 0 < size)
    (hlength : base+size ≤ r.members.length)
    (hlow : base = 0 ∨ ∃ hb : base < r.members.length, r.members[base].index ≤ index)
    (hhigh : ∀ (k : ℕ) (hk : k < r.members.length), base+size ≤ k →
      index < r.members[k].index) :
    ∃ h : r.narrow index base size < r.members.length,
      (r.narrow index base size = 0 ∨ r.members[r.narrow index base size].index ≤ index) ∧
      ∀ (k : ℕ) (hk : k < r.members.length), r.narrow index base size < k →
        index < r.members[k].index := by
  fun_induction r.narrow index base size with
  | case1 base size hone =>
    refine ⟨by omega,?_,fun k hk hlt => hhigh k hk (by omega)⟩
    exact hlow.imp_right fun ⟨hb,hle⟩ => hle
  | case2 base size hmany htest ih =>
    obtain ⟨v,hv,hv'⟩ := (Option.any_eq_true ..).mp htest
    obtain ⟨hmid,rfl⟩ := List.getElem?_eq_some_iff.mp hv
    refine ih (by omega) (by omega) hlow fun k hk hle => ?_
    have hgt : index < r.members[base+size/2].index := of_decide_eq_true hv'
    rcases Nat.lt_or_ge (base+size/2) k with hlt | hge
    · exact hgt.trans (hr.index_lt hk hlt)
    · obtain rfl : k = base+size/2 := by omega
      exact hgt
  | case3 base size hmany htest ih =>
    have hmid : base+size/2 < r.members.length := by omega
    have hle : r.members[base+size/2].index ≤ index := by
      simpa [at?,List.getElem?_eq_getElem hmid] using htest
    exact ih (by omega) (by omega) (.inr ⟨hmid,hle⟩) fun k hk hk' => hhigh k hk (by omega)

/-- In order, halving never drops the half that an index is in. -/
theorem Ordered.locates_search (hr : r.Ordered) (index : ℕ) :
    r.Locates index (r.search index) := by
  unfold search
  dsimp only
  by_cases hempty : r.members.length = 0
  · have hnone : r.at? (r.narrow index 0 r.size) = none := by
      rw [at?,List.getElem?_eq_none_iff]
      omega
    have hzero : r.narrow index 0 r.size = 0 := by
      rw [narrow,if_pos (by rw [size]; omega)]
    rw [hnone,hzero]
    exact ⟨Nat.zero_le _,fun k hk => by omega,fun k hk => by omega⟩
  · obtain ⟨hlt,hlow,hhigh⟩ := @narrow_spec r index 0 r.members.length hr (by omega) (by omega)
      (.inl rfl) fun k hk hle => by omega
    rw [size]
    generalize r.narrow index 0 r.members.length = base at hlt hlow hhigh
    have hat : r.at? base = some r.members[base] := List.getElem?_eq_getElem hlt
    rw [hat]
    dsimp only
    split_ifs with heq hless
    · exact ⟨hlt,heq⟩
    · refine ⟨hlt,fun k hk hle => ?_,fun k hk hle => hhigh k hk hle⟩
      rcases Nat.lt_or_ge k base with hb | hb
      · exact (hr.index_lt hlt hb).trans hless
      · obtain rfl : k = base := by omega
        exact hless
    · obtain rfl : base = 0 := hlow.resolve_right (by omega)
      refine ⟨Nat.zero_le _,fun k hk hk0 => by omega,fun k hk _ => ?_⟩
      rcases Nat.eq_zero_or_pos k with rfl | hpos
      · omega
      · exact hhigh k hk hpos

/-- The position of an index is what a search finds. -/
theorem Ordered.position?_eq_search (hr : r.Ordered) (index : ℕ) :
    r.position? index = (r.search index).toOption := by
  have hfound := hr.locates_search index
  cases h : r.search index with
  | ok j =>
    rw [h] at hfound
    obtain ⟨hj,rfl⟩ := hfound
    exact hr.position? hj
  | error j =>
    rw [h] at hfound
    obtain ⟨-,hlow,hhigh⟩ := hfound
    refine position?_eq_none.mpr fun v hv => ?_
    obtain ⟨k,hk,rfl⟩ := List.getElem_of_mem hv
    rcases Nat.lt_or_ge k j with hlt | hge
    · exact (hlow k hk hlt).ne
    · exact (hhigh k hk hge).ne'

end Search

lemma place_eq_insertIdx {v : Variable} {l : List Variable} {j : ℕ} (hj : j ≤ l.length)
    (hlow : ∀ (k : ℕ) (hk : k < l.length), k < j → l[k].index < v.index)
    (hhigh : ∀ (k : ℕ) (hk : k < l.length), j ≤ k → v.index < l[k].index) :
    place v l = l.insertIdx j v := by
  induction j generalizing l with
  | zero =>
    cases l with
    | nil => rfl
    | cons w l =>
      have hw : v.index < w.index := hhigh 0 (by simp) le_rfl
      rw [place,if_neg (by omega),List.insertIdx_zero]
  | succ j ih =>
    cases l with
    | nil => simp at hj
    | cons w l =>
      have hw : w.index < v.index := hlow 0 (by simp) (by omega)
      rw [place,if_pos hw,List.insertIdx_succ_cons]
      congr 1
      refine ih (by simpa using hj) (fun k hk hlt => ?_) fun k hk hle => ?_
      · exact hlow (k+1) (by simpa using hk) (by omega)
      · exact hhigh (k+1) (by simpa using hk) (by omega)

/-- An insertion into a registry in order is one that looks for its position by halving. -/
theorem Ordered.insert_eq_insertBySearch {r : Registry} (hr : r.Ordered) (v : Variable) :
    r.insert v = r.insertBySearch v := by
  have hfound := hr.locates_search v.index
  unfold Registry.insert insertBySearch
  split_ifs with hzero hname hindex
  · rfl
  · rfl
  · obtain ⟨w,hw,he⟩ := List.any_eq_true.mp hindex
    cases h : r.search v.index with
    | ok j => rfl
    | error j =>
      have hnone : r.position? v.index = none := by rw [hr.position?_eq_search,h]; rfl
      exact absurd (by simpa using he) (position?_eq_none.mp hnone w hw)
  · cases h : r.search v.index with
    | ok j =>
      rw [h] at hfound
      obtain ⟨hj,he⟩ := hfound
      exact absurd (List.any_eq_true.mpr ⟨_,List.getElem_mem hj,by simpa using he⟩) hindex
    | error j =>
      rw [h] at hfound
      obtain ⟨hj,hlow,hhigh⟩ := hfound
      dsimp only
      rw [place_eq_insertIdx hj hlow hhigh]

end Registry

end LinProg
