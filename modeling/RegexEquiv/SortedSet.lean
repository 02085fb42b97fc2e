import Std.Data.TreeSet

/-!
# Finite sets as strictly increasing lists

`SortedSet α` keeps a finite set of ordered values as the strictly increasing list of its members.
The list is unique: `ext_mem` says that two sets with the same members are equal, so equality of
sets is equality of values, and a set can serve as a key. `mem_ofList` and `mem_union` give the
members of what the constructors build. The position of a member in the list is its column in the
tables of an automaton; `get?_eq_some_iff` says that positions and members determine each other.
-/

namespace RegexEquiv

variable {α : Type} [Ord α]

/-- A finite set, kept as the strictly increasing list of its members. -/
@[ext]
structure SortedSet (α : Type) [Ord α] where
  toList : List α
  sorted : toList.Pairwise (fun a b => compare a b = .lt)

namespace SortedSet

instance [DecidableEq α] : DecidableEq (SortedSet α) := fun s t =>
  decidable_of_iff (s.toList = t.toList) ⟨SortedSet.ext, congrArg toList⟩

/-- Sets compare like the lists of their members, the first difference deciding. -/
instance : Ord (SortedSet α) := ⟨compareOn toList⟩

instance [Std.TransOrd α] : Std.TransOrd (SortedSet α) :=
  inferInstanceAs (Std.TransCmp (compareOn (toList (α := α))))

instance [Std.LawfulEqOrd α] : Std.LawfulEqOrd (SortedSet α) where
  compare_self := Std.ReflCmp.compare_self (α := List α)
  eq_of_compare h := SortedSet.ext (Std.LawfulEqOrd.eq_of_compare (α := List α) h)

/-- The set without members. -/
def empty : SortedSet α := ⟨[], .nil⟩

instance : EmptyCollection (SortedSet α) := ⟨empty⟩

instance : Inhabited (SortedSet α) := ⟨empty⟩

instance : Membership α (SortedSet α) := ⟨fun s a => a ∈ s.toList⟩

instance [DecidableEq α] (a : α) (s : SortedSet α) : Decidable (a ∈ s) :=
  inferInstanceAs (Decidable (a ∈ s.toList))

/-- Whether a value is a member. -/
def contains [DecidableEq α] (s : SortedSet α) (a : α) : Bool := decide (a ∈ s)

/-- Whether there is no member. -/
def isEmpty (s : SortedSet α) : Bool := s.toList.isEmpty

/-- The number of members. -/
def size (s : SortedSet α) : Nat := s.toList.length

/-- The position of a member in increasing order. -/
def idxOf? [DecidableEq α] (s : SortedSet α) (a : α) : Option Nat := s.toList.idxOf? a

/-- The member at a position. -/
def get? (s : SortedSet α) (i : Nat) : Option α := s.toList[i]?

variable [Std.TransOrd α]

/-- The set of the values in a list, in any order and with repetitions. -/
def ofList (l : List α) : SortedSet α where
  toList := (Std.TreeSet.ofList l).toList
  sorted := Std.TreeSet.ordered_toList

/-- The values that belong to at least one of two sets. -/
def union (s t : SortedSet α) : SortedSet α := ofList (s.toList ++ t.toList)

/-! ## Members -/

omit [Std.TransOrd α] in
theorem mem_toList {s : SortedSet α} {a : α} : a ∈ s.toList ↔ a ∈ s := Iff.rfl

omit [Std.TransOrd α] in
@[simp]
theorem not_mem_empty (a : α) : a ∉ (∅ : SortedSet α) := List.not_mem_nil

variable [Std.LawfulEqOrd α]

@[simp]
theorem mem_ofList {l : List α} {a : α} : a ∈ ofList l ↔ a ∈ l := by
  classical
  have hbeq : Std.LawfulBEqOrd α := inferInstance
  rw [← mem_toList, ofList, Std.TreeSet.mem_toList, Std.TreeSet.mem_ofList, List.contains_iff_mem]

@[simp]
theorem mem_union {s t : SortedSet α} {a : α} : a ∈ s.union t ↔ a ∈ s ∨ a ∈ t := by
  rw [union, mem_ofList, List.mem_append, mem_toList, mem_toList]

omit [Std.LawfulEqOrd α] in
/-- No value is listed twice. -/
theorem nodup_toList (s : SortedSet α) : s.toList.Nodup :=
  s.sorted.imp fun h heq => by
    subst heq
    simp [Std.ReflCmp.compare_self] at h

omit [Std.LawfulEqOrd α] in
/-- Sets with the same members are equal. -/
theorem ext_mem {s t : SortedSet α} (h : ∀ a, a ∈ s ↔ a ∈ t) : s = t := by
  have hperm : s.toList.Perm t.toList :=
    (List.perm_ext_iff_of_nodup s.nodup_toList t.nodup_toList).2 h
  refine SortedSet.ext (hperm.eq_of_pairwise ?_ s.sorted t.sorted)
  intro a b _ _ hab hba
  rw [Std.OrientedOrd.eq_swap, hba] at hab
  cases hab

/-- A set is rebuilt from the list of its members. -/
@[simp]
theorem ofList_toList (s : SortedSet α) : ofList s.toList = s :=
  ext_mem fun _ => by rw [mem_ofList, mem_toList]

/-! ## Positions -/

omit [Std.TransOrd α] [Std.LawfulEqOrd α] in
/-- A value has a position exactly when it is a member. -/
theorem idxOf?_isSome [DecidableEq α] {s : SortedSet α} {a : α} :
    (s.idxOf? a).isSome = s.contains a := by
  rw [Bool.eq_iff_iff, idxOf?, List.isSome_idxOf?, contains, decide_eq_true_iff, mem_toList]

omit [Std.LawfulEqOrd α] in
/-- Positions and members determine each other. -/
theorem get?_eq_some_iff [DecidableEq α] {s : SortedSet α} {a : α} {i : Nat} :
    s.get? i = some a ↔ s.idxOf? a = some i := by
  rw [get?, idxOf?, List.idxOf?_eq_some_iff, List.getElem?_eq_some_iff]
  constructor
  · rintro ⟨hi, heq⟩
    refine ⟨hi, heq, fun j hj hja => Nat.ne_of_lt hj ?_⟩
    have hjs : j < s.toList.length := Nat.lt_trans hj hi
    refine (List.getElem?_inj hjs s.nodup_toList).1 ?_
    rw [List.getElem?_eq_getElem hjs, List.getElem?_eq_getElem hi, hja, heq]
  · rintro ⟨hi, heq, _⟩
    exact ⟨hi, heq⟩

end SortedSet

end RegexEquiv
