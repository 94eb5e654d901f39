import LinProg.Registry
import Mathlib.Tactic

/-!
Registries in the order of their indices. Insertion keeps the order, and a variable behind all
others in it goes to the end.
-/
namespace LinProg

theorem Except.bind_eq_ok {ε α β : Type} {e : Except ε α} {f : α → Except ε β} {b : β} :
    e >>= f = .ok b ↔ ∃ a, e = .ok a ∧ f a = .ok b := by
  cases e <;> simp [bind,Except.bind]

theorem Except.exists_bind_eq_ok {ε α β : Type} {e : Except ε α} {f : α → Except ε β} :
    (∃ b, e >>= f = .ok b) ↔ ∃ a, e = .ok a ∧ ∃ b, f a = .ok b := by
  cases e <;> simp [bind,Except.bind]

theorem Except.bind_eq_error {ε α β : Type} {e : Except ε α} {f : α → Except ε β} {m : ε} :
    e >>= f = .error m ↔ e = .error m ∨ ∃ a, e = .ok a ∧ f a = .error m := by
  cases e <;> simp [bind,Except.bind]

def Except.failure? {ε α : Type} : Except ε α → Option ε
  | .error e => some e
  | .ok _ => none

lemma Except.failure?_eq_some {ε α : Type} {r : Except ε α} {e : ε} :
    failure? r = some e ↔ r = .error e := by
  cases r <;> simp [failure?]

lemma Except.toOption_eq_some {ε α : Type} {r : Except ε α} {a : α} :
    r.toOption = some a ↔ r = .ok a := by
  cases r <;> simp [Except.toOption]

namespace Registry

def Ordered (r : Registry) : Prop := r.members.Pairwise fun v w => v.index < w.index

lemma mem_place {v w : Variable} {l : List Variable} : w ∈ place v l ↔ w = v ∨ w ∈ l := by
  induction l with
  | nil => simp [place]
  | cons u l ih =>
    rw [place]
    split <;> simp [ih,or_left_comm]

lemma place_eq_append {v : Variable} {l : List Variable} (h : ∀ w ∈ l, w.index < v.index) :
    place v l = l ++ [v] := by
  induction l with
  | nil => rfl
  | cons w l ih =>
    rw [place,if_pos (h w (by simp)),ih fun u hu => h u (List.mem_cons_of_mem w hu)]
    rfl

lemma pairwise_place {v : Variable} {l : List Variable}
    (hl : l.Pairwise fun u w => u.index < w.index) (hv : ∀ w ∈ l, w.index ≠ v.index) :
    (place v l).Pairwise fun u w => u.index < w.index := by
  induction l with
  | nil => simp [place]
  | cons w l ih =>
    obtain ⟨hw,hl'⟩ := List.pairwise_cons.mp hl
    rw [place]
    split
    case isTrue hlt =>
      refine List.pairwise_cons.mpr
        ⟨fun u hu => ?_,ih hl' fun u hu => hv u (List.mem_cons_of_mem w hu)⟩
      rcases mem_place.mp hu with rfl | hu
      · exact hlt
      · exact hw u hu
    case isFalse hge =>
      have hvw : v.index < w.index := by
        have := hv w (by simp)
        omega
      refine List.pairwise_cons.mpr ⟨fun u hu => ?_,hl⟩
      rcases List.mem_cons.mp hu with rfl | hu
      · exact hvw
      · exact hvw.trans (hw u hu)

/-- An insertion that succeeds places the variable, whose index is new. -/
lemma insert_eq_ok {r r' : Registry} {v : Variable} (h : r.insert v = .ok r') :
    r' = ⟨place v r.members⟩ ∧ ∀ w ∈ r.members, w.index ≠ v.index := by
  unfold insert at h
  split at h
  case isTrue => contradiction
  split at h
  case isTrue => contradiction
  split at h
  case isTrue => contradiction
  case isFalse hi => exact ⟨(Except.ok.inj h).symm,by simpa using hi⟩

lemma free_of_insert {r r' : Registry} {v : Variable} (h : r.insert v = .ok r') :
    ∀ w ∈ r.members, w.isNamed v.name = false := by
  unfold insert at h
  split at h
  case isTrue => contradiction
  split at h
  case isTrue => contradiction
  case isFalse hn => simpa using hn

/-- A variable with a name and an index of its own, behind all others, is appended. -/
lemma insert_of_fresh {r : Registry} {v : Variable} (hpos : v.index ≠ 0)
    (hname : ∀ w ∈ r.members, w.isNamed v.name = false) (hlt : ∀ w ∈ r.members, w.index < v.index) :
    r.insert v = .ok ⟨r.members ++ [v]⟩ := by
  have hany : r.members.any (·.isNamed v.name) = false := by simpa using hname
  have hindex : r.members.any (·.index == v.index) = false := by
    simpa using fun w hw => (hlt w hw).ne
  rw [insert,if_neg hpos,hany,hindex,place_eq_append hlt]
  rfl

theorem Ordered.insert {r r' : Registry} {v : Variable} (hr : r.Ordered) (h : r.insert v = .ok r') :
    r'.Ordered := by
  obtain ⟨rfl,hv⟩ := insert_eq_ok h
  exact pairwise_place hr hv

theorem Ordered.foldlM_insert {vs : List Variable} {r r' : Registry} (hr : r.Ordered)
    (h : vs.foldlM Registry.insert r = .ok r') : r'.Ordered := by
  induction vs generalizing r with
  | nil =>
    obtain rfl : r = r' := Except.ok.inj h
    exact hr
  | cons v vs ih =>
    obtain ⟨u,hu,h⟩ := Except.bind_eq_ok.mp ((List.foldlM_cons ..).symm.trans h)
    exact ih (hr.insert hu) h

/-- Inserting variables in order, all behind those of the registry, appends them. -/
theorem members_foldlM_insert {vs : List Variable} {r r' : Registry}
    (ho : (r.members ++ vs).Pairwise fun v w => v.index < w.index)
    (h : vs.foldlM insert r = .ok r') : r'.members = r.members ++ vs := by
  induction vs generalizing r with
  | nil =>
    obtain rfl : r = r' := Except.ok.inj h
    simp
  | cons v vs ih =>
    rw [List.foldlM_cons,Except.bind_eq_ok] at h
    obtain ⟨u,hu,h⟩ := h
    obtain ⟨rfl,-⟩ := insert_eq_ok hu
    have hlt : ∀ w ∈ r.members, w.index < v.index := fun w hw =>
      (List.pairwise_append.mp ho).2.2 w hw v (by simp)
    have he : (⟨place v r.members⟩ : Registry).members = r.members ++ [v] := place_eq_append hlt
    have := ih (by rw [he]; simpa using ho) h
    rw [this,he]
    simp

lemma Ordered.lt_nextIndex {r : Registry} (hr : r.Ordered) :
    ∀ v ∈ r.members, v.index < r.nextIndex := by
  intro v hv
  unfold nextIndex
  split
  case h_1 hn => simp [List.getLast?_eq_none_iff.mp hn] at hv
  case h_2 w hw =>
    obtain ⟨l,hl⟩ := List.getLast?_eq_some_iff.mp hw
    rw [Ordered,hl] at hr
    rw [hl] at hv
    rcases List.mem_append.mp hv with hv | hv
    · exact Nat.lt_succ_of_lt ((List.pairwise_append.mp hr).2.2 v hv w (by simp))
    · obtain rfl := List.mem_singleton.mp hv
      exact Nat.lt_succ_self _

/-- Variables in order, with names of their own, are all appended. -/
lemma foldlM_insert_of_fresh {vs : List Variable} {r : Registry} (hpos : ∀ v ∈ vs, v.index ≠ 0)
    (hnames : (r.members ++ vs).Pairwise fun v w => v.isNamed w.name = false)
    (hlt : (r.members ++ vs).Pairwise fun v w => v.index < w.index) :
    vs.foldlM insert r = .ok ⟨r.members ++ vs⟩ := by
  induction vs generalizing r with
  | nil => simp [pure,Except.pure]
  | cons v vs ih =>
    have hinsert : r.insert v = .ok ⟨r.members ++ [v]⟩ := insert_of_fresh (hpos v (by simp))
      (fun w hw => (List.pairwise_append.mp hnames).2.2 w hw v (by simp))
      (fun w hw => (List.pairwise_append.mp hlt).2.2 w hw v (by simp))
    rw [List.foldlM_cons,Except.bind_eq_ok]
    refine ⟨_,hinsert,?_⟩
    rw [ih (fun w hw => hpos w (List.mem_cons_of_mem v hw)) (by simpa using hnames)
      (by simpa using hlt)]
    simp

/-- A pushed variable comes last. -/
theorem Ordered.push {r r' : Registry} (hr : r.Ordered) {name : String} {kind : Kind}
    (h : r.push name kind = .ok r') :
    r'.members = r.members ++ [{ name, index := r.nextIndex, kind }] ∧ r'.Ordered := by
  refine ⟨?_,hr.insert h⟩
  obtain ⟨rfl,-⟩ := insert_eq_ok h
  exact place_eq_append hr.lt_nextIndex

lemma free_of_push {r r' : Registry} {name : String} {kind : Kind}
    (h : r.push name kind = .ok r') : ∀ v ∈ r.members, v.isNamed name = false :=
  free_of_insert h

lemma nextIndex_ne_zero (r : Registry) : r.nextIndex ≠ 0 := by
  unfold nextIndex
  split <;> simp

/-- A push succeeds if the name is free. -/
lemma Ordered.push_of_free {r : Registry} (hr : r.Ordered) {name : String}
    (hname : ∀ v ∈ r.members, v.isNamed name = false) (kind : Kind) :
    r.push name kind = .ok ⟨r.members ++ [{ name, index := r.nextIndex, kind }]⟩ :=
  insert_of_fresh r.nextIndex_ne_zero hname hr.lt_nextIndex

/-- Nothing but a name that is taken can keep a variable from being pushed. -/
lemma Ordered.push_eq_error {r : Registry} (hr : r.Ordered) {name : String} {kind : Kind}
    {m : Misuse} (h : r.push name kind = .error m) :
    m = .nameTaken name ∧ ∃ v ∈ r.members, v.isNamed name = true := by
  by_cases hfree : ∀ v ∈ r.members, v.isNamed name = false
  · rw [hr.push_of_free hfree] at h
    contradiction
  · have hany : r.members.any (·.isNamed name) = true := by simpa using hfree
    rw [Registry.push,Registry.insert,if_neg r.nextIndex_ne_zero,if_pos hany] at h
    exact ⟨(Except.error.inj h).symm,List.any_eq_true.mp hany⟩

theorem ordered_numbered (stem : String) (count : ℕ) : (numbered stem count).Ordered := by
  rw [Ordered,numbered,List.pairwise_map]
  exact List.pairwise_lt_range.imp fun h => Nat.succ_lt_succ h

/-- An index belongs to one variable at most. -/
lemma Ordered.eq_of_index {r : Registry} (hr : r.Ordered) {v w : Variable} (hv : v ∈ r.members)
    (hw : w ∈ r.members) (h : v.index = w.index) : v = w := by
  have hnodup : (r.members.map Variable.index).Nodup := List.pairwise_map.mpr (hr.imp Nat.ne_of_lt)
  exact List.inj_on_of_nodup_map hnodup hv hw h

/-- The column of a variable is found by its index. -/
lemma Ordered.position? {r : Registry} (hr : r.Ordered) {j : ℕ} (hj : j < r.members.length) :
    r.position? r.members[j].index = some j := by
  rw [Registry.position?,List.findIdx?_eq_some_iff_getElem]
  refine ⟨hj,by simp,fun i hi => ?_⟩
  have := List.pairwise_iff_getElem.mp hr i j (hi.trans hj) hj hi
  simpa using this.ne

lemma position?_eq_some {r : Registry} {i j : ℕ} (h : r.position? i = some j) :
    ∃ hj : j < r.members.length, r.members[j].index = i := by
  rw [Registry.position?,List.findIdx?_eq_some_iff_getElem] at h
  obtain ⟨hj,he,-⟩ := h
  exact ⟨hj,by simpa using he⟩

lemma position?_eq_none {r : Registry} {i : ℕ} :
    r.position? i = none ↔ ∀ v ∈ r.members, v.index ≠ i := by
  rw [Registry.position?,List.findIdx?_eq_none_iff]
  simp

end Registry

end LinProg
