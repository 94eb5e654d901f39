import LinProg.Proofs.Bisection
import LinProg.Proofs.Building

/-!
Registries over their whole life. Whatever is inserted, pushed, renamed and removed, the indices
increase along the positions and no two names differ in the case of letters only, so a variable is
found under its index and under its name, and no other one is.
-/
namespace LinProg

lemma Variable.isNamed_comm (v w : Variable) : v.isNamed w.name = w.isNamed v.name := by
  rw [Bool.eq_iff_iff,isNamed,isNamed,Text.sameLetters_iff,Text.sameLetters_iff]
  exact eq_comm

inductive Edit
  | insert (v : Variable)
  | push (name : String) (kind : Kind)
  | setAlias (index : ℕ) (text : String)
  | retain (keep : Variable → Bool)

/-- A variable is inserted under an index from 1 to `2 ^ 53`. -/
def Edit.InRange : Edit → Prop
  | .insert v => 1 ≤ v.index ∧ v.index ≤ 2 ^ 53
  | .push .. | .setAlias .. | .retain _ => True

namespace Registry

def edit (r : Registry) : Edit → Except Misuse Registry
  | .insert v => r.insert v
  | .push name kind => r.push name kind
  | .setAlias index text => .ok (r.setAlias index text)
  | .retain keep => .ok (r.retain keep)

/-- A change that breaks a rule leaves the registry as it was. -/
def after (r : Registry) (e : Edit) : Registry := (r.edit e).toOption.getD r

def ofEdits (es : List Edit) : Registry := es.foldl after empty

section Steps
variable {r r' : Registry} {v : Variable}

lemma perm_place (v : Variable) (l : List Variable) : (place v l).Perm (v::l) := by
  induction l with
  | nil => exact .refl _
  | cons w l ih =>
    rw [place]
    split
    · exact (ih.cons w).trans (.swap v w l)
    · exact .refl _

lemma index_ne_zero_of_insert (h : r.insert v = .ok r') : v.index ≠ 0 := by
  intro hzero
  rw [Registry.insert,if_pos hzero] at h
  contradiction

lemma Proper.insert (hr : r.Proper) (h : r.insert v = .ok r') : r'.Proper := by
  have ho := hr.ordered.insert h
  have hpos := index_ne_zero_of_insert h
  have hfree := free_of_insert h
  obtain ⟨rfl,-⟩ := insert_eq_ok h
  refine ⟨ho,fun w hw => ?_,?_⟩
  · rcases mem_place.mp hw with rfl | hw
    · exact hpos
    · exact hr.positive w hw
  · have hsymm : ∀ {u w : Variable}, u.isNamed w.name = false → w.isNamed u.name = false :=
      fun {u w} h => (w.isNamed_comm u).trans h
    rw [(perm_place v r.members).pairwise_iff hsymm,List.pairwise_cons]
    exact ⟨fun w hw => hsymm (hfree w hw),hr.names⟩

lemma Proper.push (hr : r.Proper) {name : String} {kind : Kind} (h : r.push name kind = .ok r') :
    r'.Proper := Proper.insert hr h

/-- An alias changes neither a name nor an index. -/
lemma Proper.setAlias (hr : r.Proper) (index : ℕ) (text : String) :
    (r.setAlias index text).Proper := by
  have hname : ∀ v : Variable,
      (if v.index = index then { v with alias? := some text } else v).name = v.name := fun v => by
    split <;> rfl
  have hindex : ∀ v : Variable,
      (if v.index = index then { v with alias? := some text } else v).index = v.index := fun v => by
    split <;> rfl
  refine ⟨?_,?_,?_⟩
  · rw [Ordered,Registry.setAlias,List.pairwise_map]
    exact hr.ordered.imp fun h => by rwa [hindex,hindex]
  · rw [Registry.setAlias,List.forall_mem_map]
    exact fun v hv => (hindex v).trans_ne (hr.positive v hv)
  · rw [Registry.setAlias,List.pairwise_map]
    exact hr.names.imp fun h => by rwa [Variable.isNamed,hname,hname]

lemma Proper.retain (hr : r.Proper) (keep : Variable → Bool) : (r.retain keep).Proper :=
  ⟨hr.ordered.filter _,fun v hv => hr.positive v (List.mem_of_mem_filter hv),hr.names.filter _⟩

def Below (r : Registry) (bound : ℕ) : Prop := ∀ v ∈ r.members, v.index ≤ bound

lemma Below.nextIndex_le {bound : ℕ} (hr : r.Below bound) : r.nextIndex ≤ bound+1 := by
  unfold nextIndex
  split
  case h_1 => omega
  case h_2 v hv => exact Nat.succ_le_succ (hr v (List.mem_of_getLast? hv))

lemma Below.insert {bound : ℕ} (hr : r.Below bound) (hv : v.index ≤ bound)
    (h : r.insert v = .ok r') : r'.Below bound := by
  obtain ⟨rfl,-⟩ := insert_eq_ok h
  intro w hw
  rcases mem_place.mp hw with rfl | hw
  · exact hv
  · exact hr w hw

/-- One change keeps the order and the names apart. -/
theorem Proper.after (hr : r.Proper) (e : Edit) : (r.after e).Proper := by
  unfold Registry.after
  cases h : r.edit e with
  | error m => exact hr
  | ok r' =>
    change r'.Proper
    cases e with
    | insert v => exact hr.insert h
    | push name kind => exact hr.push h
    | setAlias index text => exact Except.ok.inj h ▸ hr.setAlias index text
    | retain keep => exact Except.ok.inj h ▸ hr.retain keep

/-- One change raises the greatest index by one at most, or to an index that was asked for. -/
theorem Below.after {bound : ℕ} (hr : r.Below bound) (hbound : 2 ^ 53 ≤ bound) {e : Edit}
    (he : e.InRange) : (r.after e).Below (bound+1) := by
  have hr' : r.Below (bound+1) := fun v hv => (hr v hv).trans (Nat.le_succ _)
  unfold Registry.after
  cases h : r.edit e with
  | error m => exact hr'
  | ok r' =>
    change r'.Below (bound+1)
    cases e with
    | insert v => exact hr'.insert (he.2.trans (hbound.trans (Nat.le_succ _))) h
    | push name kind => exact hr'.insert hr.nextIndex_le h
    | setAlias index text =>
      rw [← Except.ok.inj h,Below,Registry.setAlias,List.forall_mem_map]
      intro v hv
      split <;> exact hr' v hv
    | retain keep =>
      rw [← Except.ok.inj h]
      exact fun v hv => hr' v (List.mem_of_mem_filter hv)

end Steps

/-- Any number of changes does. -/
theorem proper_ofEdits (es : List Edit) : (ofEdits es).Proper := by
  have hempty : empty.Proper := ⟨.nil,by simp [empty],.nil⟩
  unfold ofEdits
  generalize empty = r at hempty
  induction es generalizing r with
  | nil => exact hempty
  | cons e es ih => exact ih _ (hempty.after e)

theorem below_ofEdits {es : List Edit} (h : ∀ e ∈ es, e.InRange) :
    (ofEdits es).Below (2 ^ 53+es.length) := by
  induction es using List.reverseRecOn with
  | nil => simp [ofEdits,Below,empty]
  | append_singleton es e ih =>
    rw [ofEdits,List.foldl_append,List.length_append]
    exact (ih fun e he => h e (by simp [he])).after (Nat.le_add_right ..) (h e (by simp))

structure Reliable (r : Registry) : Prop where
  /-- A variable with an index from 1 on is refused if its name or its index is taken. -/
  insert_error : ∀ v m, v.index ≠ 0 → (r.insert v = .error m ↔
    ((∃ w ∈ r.members, w.isNamed v.name = true) ∧ m = .nameTaken v.name) ∨
    ((∀ w ∈ r.members, w.isNamed v.name = false) ∧ (∃ w ∈ r.members, w.index = v.index) ∧
      m = .indexTaken v.index))
  insert_search : ∀ v, r.insert v = r.insertBySearch v
  lt_next : ∀ w ∈ r.members, w.index < r.nextIndex
  /-- A variable with the next index is refused for its name only. -/
  push_error : ∀ name kind m, r.push name kind = .error m ↔
    (∃ w ∈ r.members, w.isNamed name = true) ∧ m = .nameTaken name
  push_last : ∀ name kind r', r.push name kind = .ok r' →
    r'.members = r.members ++ [{ name, index := r.nextIndex, kind }]
  position_search : ∀ index, r.position? index = (r.search index).toOption
  position_index : ∀ v ∈ r.members, (r.position? v.index).bind r.at? = some v
  get_eq : ∀ v index, r.get? index = some v ↔ v ∈ r.members ∧ v.index = index
  /-- At most one variable has a name, and it is the one that is found. -/
  matching : ∀ name, r.matching name = (r.find? name).toList

section Reliable
variable {r : Registry} (hr : r.Proper)
include hr

/-- Two variables whose names match one text are one variable. -/
lemma Proper.matching_eq (name : String) : r.matching name = (r.find? name).toList := by
  have hpair : (r.matching name).Pairwise fun v w => v.isNamed w.name = false := hr.names.filter _
  have hnamed : ∀ v ∈ r.matching name, v.isNamed name = true := fun v hv =>
    (List.mem_filter.mp hv).2
  rw [find?_eq_head?_matching]
  generalize r.matching name = l at hpair hnamed
  match l with
  | [] => rfl
  | [v] => rfl
  | v::w::l =>
    have hv := hnamed v (by simp)
    have hw := hnamed w (by simp)
    rw [Variable.isNamed,Text.sameLetters_iff] at hv hw
    have hvw : v.isNamed w.name = true := Text.sameLetters_iff.mpr (hv.trans hw.symm)
    rw [(List.pairwise_cons.mp hpair).1 w (by simp)] at hvw
    contradiction

omit hr in
lemma insert_eq_error {v : Variable} {m : Misuse} (hv : v.index ≠ 0) : r.insert v = .error m ↔
    ((∃ w ∈ r.members, w.isNamed v.name = true) ∧ m = .nameTaken v.name) ∨
    ((∀ w ∈ r.members, w.isNamed v.name = false) ∧ (∃ w ∈ r.members, w.index = v.index) ∧
      m = .indexTaken v.index) := by
  rw [Registry.insert,if_neg hv]
  by_cases hname : ∃ w ∈ r.members, w.isNamed v.name = true
  · rw [if_pos (List.any_eq_true.mpr hname)]
    constructor
    · intro h
      exact .inl ⟨hname,(Except.error.inj h).symm⟩
    · rintro (⟨-,rfl⟩ | ⟨hfree,-⟩)
      · rfl
      · obtain ⟨w,hw,hnamed⟩ := hname
        rw [hfree w hw] at hnamed
        contradiction
  · have hfree : ∀ w ∈ r.members, w.isNamed v.name = false := by simpa using hname
    rw [if_neg (by simpa using hname)]
    by_cases hindex : ∃ w ∈ r.members, w.index = v.index
    · rw [if_pos (by simpa using hindex)]
      constructor
      · intro h
        exact .inr ⟨hfree,hindex,(Except.error.inj h).symm⟩
      · rintro (⟨h,-⟩ | ⟨-,-,rfl⟩)
        · contradiction
        · rfl
    · rw [if_neg (by simpa using hindex)]
      constructor
      · intro h
        contradiction
      · rintro (⟨h,-⟩ | ⟨-,h,-⟩) <;> contradiction

lemma Proper.get?_eq_some {v : Variable} {index : ℕ} :
    r.get? index = some v ↔ v ∈ r.members ∧ v.index = index := by
  constructor
  · intro h
    obtain ⟨j,hj,hv⟩ := Option.bind_eq_some_iff.mp h
    obtain ⟨hlt,rfl⟩ := position?_eq_some hj
    obtain rfl := Option.some.inj ((List.getElem?_eq_getElem hlt).symm.trans hv)
    exact ⟨List.getElem_mem hlt,rfl⟩
  · rintro ⟨hv,rfl⟩
    obtain ⟨j,hj,rfl⟩ := List.getElem_of_mem hv
    rw [get?,hr.ordered.position? hj]
    exact List.getElem?_eq_getElem hj

theorem Proper.reliable : r.Reliable where
  insert_error v m hv := insert_eq_error hv
  insert_search v := hr.ordered.insert_eq_insertBySearch v
  lt_next := hr.ordered.lt_nextIndex
  push_error name kind m := by
    constructor
    · intro h
      obtain ⟨hm,htaken⟩ := hr.ordered.push_eq_error h
      exact ⟨htaken,hm⟩
    · rintro ⟨htaken,rfl⟩
      exact (insert_eq_error r.nextIndex_ne_zero).mpr (.inl ⟨htaken,rfl⟩)
  push_last name kind r' h := (hr.ordered.push h).1
  position_search index := hr.ordered.position?_eq_search index
  position_index v hv := hr.get?_eq_some.mpr ⟨hv,rfl⟩
  get_eq v index := hr.get?_eq_some
  matching := hr.matching_eq

end Reliable

/-- Whatever is done to a registry that was empty once, its variables stay in the order of their
indices, with names of their own, and can be relied on to be found. -/
theorem ofEdits_reliable {es : List Edit} (h : ∀ e ∈ es, e.InRange) :
    (ofEdits es).Proper ∧ (ofEdits es).Below (2 ^ 53+es.length) ∧ (ofEdits es).Reliable :=
  ⟨proper_ofEdits es,below_ofEdits h,(proper_ofEdits es).reliable⟩

/-- Variables that come out of order, two that are refused, and an index that is used again. -/
def busyEdits : List Edit :=
  [.insert ⟨"X3",3,.decision,none⟩,.insert ⟨"X1",1,.decision,none⟩,.push "S1" .slack,
    .insert ⟨"x3",7,.decision,none⟩,.insert ⟨"Y",1,.decision,none⟩,.setAlias 1 "chairs",
    .retain fun v => v.kind == .decision,.push "A1" .artificial]

theorem ofEdits_reliable_busy : (∀ e ∈ busyEdits, e.InRange) ∧
    (ofEdits busyEdits).members.map (fun v => (v.label,v.index)) =
      [("chairs",1),("X3",3),("A1",4)] ∧
    (ofEdits busyEdits).Proper ∧ (ofEdits busyEdits).Reliable := by
  have hrange : ∀ e ∈ busyEdits, e.InRange := by simp [busyEdits,Edit.InRange]
  obtain ⟨hproper,-,hreliable⟩ := ofEdits_reliable hrange
  exact ⟨hrange,by decide +kernel,hproper,hreliable⟩

end Registry

end LinProg
