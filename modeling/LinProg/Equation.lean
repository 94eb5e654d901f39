import LinProg.Scalar
import LinProg.Registry

/-!
Linear expressions as coefficients by variable index. An entry that is zero differs from a missing
one: a tableau has columns only for the variables its objective mentions.
-/
namespace LinProg

/-- The entries are in the order of their indices, so equal expressions have equal lists. -/
structure Equation (K : Type) where
  entries : List (Nat × K)
  ordered : entries.Pairwise fun a b => a.1 < b.1
  deriving Repr

namespace Equation
variable {K : Type}

instance [DecidableEq K] : DecidableEq (Equation K) :=
  fun a b => decidable_of_iff (a.entries = b.entries)
    ⟨fun h => by cases a; cases b; cases h; rfl, congrArg _⟩

/-- The entry of an index becomes a function of what it was. -/
def alterEntries (index : Nat) (f : Option K → K) : List (Nat × K) → List (Nat × K)
  | [] => [(index, f none)]
  | (i, c) :: rest =>
    if index < i then (index, f none) :: (i, c) :: rest
    else if index = i then (i, f (some c)) :: rest
    else (i, c) :: alterEntries index f rest

theorem mem_alterEntries {index : Nat} {f : Option K → K} {es : List (Nat × K)} {e : Nat × K}
    (h : e ∈ alterEntries index f es) : e.1 = index ∨ ∃ d ∈ es, e.1 = d.1 := by
  induction es with
  | nil => simp_all [alterEntries]
  | cons d rest ih =>
    simp only [alterEntries] at h
    split at h
    · rcases List.mem_cons.1 h with rfl | h
      · exact .inl rfl
      · exact .inr ⟨e, h, rfl⟩
    · split at h
      · rcases List.mem_cons.1 h with rfl | h
        · exact .inr ⟨d, by simp, rfl⟩
        · exact .inr ⟨e, by simp [h], rfl⟩
      · rcases List.mem_cons.1 h with rfl | h
        · exact .inr ⟨_, by simp, rfl⟩
        · rcases ih h with h | ⟨d', hd, h⟩
          · exact .inl h
          · exact .inr ⟨d', by simp [hd], h⟩

theorem pairwise_alterEntries (index : Nat) (f : Option K → K) {es : List (Nat × K)}
    (h : es.Pairwise fun a b => a.1 < b.1) :
    (alterEntries index f es).Pairwise fun a b => a.1 < b.1 := by
  induction es with
  | nil => simp [alterEntries]
  | cons d rest ih =>
    obtain ⟨hd, hr⟩ := List.pairwise_cons.1 h
    simp only [alterEntries]
    split
    · refine List.pairwise_cons.2 ⟨fun e he => ?_, h⟩
      rcases List.mem_cons.1 he with rfl | he
      · assumption
      · exact Nat.lt_trans ‹_› (hd e he)
    · split
      · exact List.pairwise_cons.2 ⟨hd, hr⟩
      · refine List.pairwise_cons.2 ⟨fun e he => ?_, ih hr⟩
        rcases mem_alterEntries he with he | ⟨d', hd', he⟩
        · omega
        · rw [he]; exact hd d' hd'

/-- The number at an index. -/
def entryAt? (index : Nat) : List (Nat × K) → Option K
  | [] => none
  | (i, c) :: rest => if i = index then some c else entryAt? index rest

theorem entryAt?_eq_none {index : Nat} {es : List (Nat × K)} (h : ∀ e ∈ es, index < e.1) :
    entryAt? index es = none := by
  induction es with
  | nil => rfl
  | cons d rest ih => grind [entryAt?]

theorem entryAt?_alterEntries (index : Nat) (f : Option K → K) {es : List (Nat × K)}
    (h : es.Pairwise fun a b => a.1 < b.1) (i : Nat) :
    entryAt? i (alterEntries index f es) =
      if i = index then some (f (entryAt? index es)) else entryAt? i es := by
  induction es with
  | nil => grind [alterEntries, entryAt?]
  | cons d rest ih =>
    obtain ⟨hd, hr⟩ := List.pairwise_cons.1 h
    have := ih hr
    have : index < d.1 → entryAt? index rest = none := fun hlt =>
      entryAt?_eq_none fun e he => Nat.lt_trans hlt (hd e he)
    grind [alterEntries, entryAt?]

def empty : Equation K := ⟨[], .nil⟩

def alter (e : Equation K) (index : Nat) (f : Option K → K) : Equation K :=
  ⟨alterEntries index f e.entries, pairwise_alterEntries index f e.ordered⟩

/-- Of several entries for one index the last counts. -/
def ofList (entries : List (Nat × K)) : Equation K :=
  entries.foldr (fun entry e => e.alter entry.1 fun later => later.getD entry.2) empty

/-- The coefficient of the variable with an index. -/
def get? (e : Equation K) (index : Nat) : Option K := entryAt? index e.entries

@[simp] theorem get?_empty (i : Nat) : (empty : Equation K).get? i = none := rfl

@[simp] theorem get?_alter (e : Equation K) (index : Nat) (f : Option K → K) (i : Nat) :
    (e.alter index f).get? i = if i = index then some (f (e.get? index)) else e.get? i :=
  entryAt?_alterEntries index f e.ordered i

theorem get?_ofList_cons (entry : Nat × K) (entries : List (Nat × K)) (i : Nat) :
    (ofList (entry :: entries)).get? i =
      if i = entry.1 then some (((ofList entries).get? entry.1).getD entry.2)
      else (ofList entries).get? i := by simp [ofList]

def contains (e : Equation K) (index : Nat) : Bool := (e.get? index).isSome

def size (e : Equation K) : Nat := e.entries.length

variable [Scalar K]

/-- Equality of entries by `==` of the numbers. -/
instance : BEq (Equation K) := ⟨fun a b => a.entries == b.entries⟩

/-- An entry 0 for every variable. -/
def zeros (r : Registry) : Equation K := ofList (r.members.map fun v => (v.index, 0))

/-- Adds to the entry of an index, which counts as 0 where it is missing. -/
def add (e : Equation K) (index : Nat) (c : K) : Equation K :=
  e.alter index fun old => old.getD 0 + c

def negate (e : Equation K) : Equation K where
  entries := e.entries.map fun entry => (entry.1, -entry.2)
  ordered := List.pairwise_map.2 e.ordered

@[simp] theorem get?_add (e : Equation K) (index : Nat) (c : K) (i : Nat) :
    (e.add index c).get? i =
      if i = index then some ((e.get? index).getD 0 + c) else e.get? i := by simp [add]

@[simp] theorem get?_negate (e : Equation K) (i : Nat) :
    e.negate.get? i = (e.get? i).map (-·) := by
  simp only [get?, negate]
  induction e.entries with
  | nil => rfl
  | cons d rest ih => grind [entryAt?]

/-- The value of the expression at a point, summed in the order of the indices. The sum starts from
minus zero, the one number whose sum with any other is that other. -/
def evaluate (e : Equation K) (point : Nat → K) : K :=
  e.entries.foldl (fun sum entry => sum + entry.2 * point entry.1) (-0)

end Equation

end LinProg
