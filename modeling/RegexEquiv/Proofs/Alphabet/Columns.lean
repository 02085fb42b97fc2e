import RegexEquiv.Alphabet

/-!
# Columns of an alphabet

A set is the strictly increasing list of its members, so it depends on the members only
(`SortedSet.ofList_eq_iff`), and its positions run through them in order: `SortedSet.idxOf?_lt_iff`
and `SortedSet.exists_idxOf?_eq_iff`. A larger set keeps two members in the order in which they were
(`SortedSet.idxOf?_lt_of_subset`), although both may move. `Alphabet.columns_increasing` gathers
this for alphabets, whose positions are the columns of the tables of automata.
-/

namespace RegexEquiv

namespace SortedSet

variable {α : Type} [Ord α] [Std.TransOrd α]

section Positions

variable [DecidableEq α] {s t : SortedSet α} {a b : α} {i j : Nat}

omit [Std.TransOrd α] in
/-- The members are the values with a position. -/
theorem exists_idxOf?_iff : (∃ i, s.idxOf? a = some i) ↔ a ∈ s := by
  rw [← Option.isSome_iff_exists, idxOf?_isSome, contains, decide_eq_true_iff]

/-- The positions are the numbers below the size. -/
theorem exists_idxOf?_eq_iff : (∃ a, s.idxOf? a = some i) ↔ i < s.size := by
  simp only [← get?_eq_some_iff, get?]
  rw [← Option.isSome_iff_exists, isSome_getElem?, size]

/-- Of two members, the one at the lower position is the smaller. -/
theorem compare_eq_lt_of_idxOf?_lt (ha : s.idxOf? a = some i) (hb : s.idxOf? b = some j)
    (h : i < j) : compare a b = .lt := by
  obtain ⟨hi, rfl⟩ := List.getElem?_eq_some_iff.1 (get?_eq_some_iff.2 ha)
  obtain ⟨hj, rfl⟩ := List.getElem?_eq_some_iff.1 (get?_eq_some_iff.2 hb)
  exact List.pairwise_iff_getElem.1 s.sorted i j hi hj h

/-- Positions increase with the members that stand there. -/
theorem idxOf?_lt_iff (ha : s.idxOf? a = some i) (hb : s.idxOf? b = some j) :
    i < j ↔ compare a b = .lt := by
  constructor
  · exact compare_eq_lt_of_idxOf?_lt ha hb
  · intro hab
    obtain hlt | rfl | hgt := Nat.lt_trichotomy i j
    · exact hlt
    · obtain rfl : a = b := Option.some.inj
        ((get?_eq_some_iff.2 ha).symm.trans (get?_eq_some_iff.2 hb))
      have haa : compare a a = .eq := Std.ReflCmp.compare_self
      rw [haa] at hab
      cases hab
    · have hba := compare_eq_lt_of_idxOf?_lt hb ha hgt
      rw [Std.OrientedOrd.eq_swap, hab] at hba
      cases hba

/-- In a larger set, two members have positions in the same order. -/
theorem idxOf?_lt_of_subset (hsub : ∀ x ∈ s, x ∈ t) (ha : s.idxOf? a = some i)
    (hb : s.idxOf? b = some j) (h : i < j) :
    ∃ i' j', t.idxOf? a = some i' ∧ t.idxOf? b = some j' ∧ i' < j' := by
  obtain ⟨i', ha'⟩ := exists_idxOf?_iff.2 (hsub a (exists_idxOf?_iff.1 ⟨i, ha⟩))
  obtain ⟨j', hb'⟩ := exists_idxOf?_iff.2 (hsub b (exists_idxOf?_iff.1 ⟨j, hb⟩))
  exact ⟨i', j', ha', hb', (idxOf?_lt_iff ha' hb').2 ((idxOf?_lt_iff ha hb).1 h)⟩

end Positions

section Union

variable [Std.LawfulEqOrd α]

/-- A set depends on which values are listed, and neither on their order nor on repetitions. -/
theorem ofList_eq_iff {l l' : List α} : ofList l = ofList l' ↔ ∀ a, a ∈ l ↔ a ∈ l' := by
  constructor
  · intro h a
    rw [← mem_ofList, h, mem_ofList]
  · intro h
    exact ext_mem fun a => by rw [mem_ofList, mem_ofList, h]

theorem union_comm (s t : SortedSet α) : s.union t = t.union s :=
  ext_mem fun a => by rw [mem_union, mem_union, or_comm]

theorem union_assoc (s t u : SortedSet α) : (s.union t).union u = s.union (t.union u) :=
  ext_mem fun a => by simp only [mem_union, or_assoc]

theorem union_self (s : SortedSet α) : s.union s = s :=
  ext_mem fun a => by rw [mem_union, or_self_iff]

end Union

end SortedSet

namespace Alphabet

/-- Which symbols are listed decides on an alphabet. Its columns and its symbols determine each
other: the symbols are those that have a column, the columns are the numbers below the size, and
they increase with the code points. Union is that of sets, and keeps the columns of either alphabet
in their order. -/
theorem columns_increasing :
    (∀ cs ds : List Char, (.ofList cs : Alphabet) = .ofList ds ↔ ∀ c, c ∈ cs ↔ c ∈ ds) ∧
    (∀ s : Alphabet,
      (∀ c i, s.idxOf? c = some i ↔ s.get? i = some c) ∧
      (∀ c, (s.idxOf? c).isSome = s.contains c) ∧
      (∀ c, (∃ i, s.idxOf? c = some i) ↔ c ∈ s) ∧
      (∀ c d i j, s.idxOf? c = some i → s.idxOf? d = some j → (i < j ↔ c < d)) ∧
      ∀ i, (∃ c, s.idxOf? c = some i) ↔ i < s.size) ∧
    ∀ s t : Alphabet,
      (∀ c, c ∈ s.union t ↔ c ∈ s ∨ c ∈ t) ∧
      s.union t = t.union s ∧
      (∀ u, (s.union t).union u = s.union (t.union u)) ∧
      s.union s = s ∧
      ∀ u ∈ [s, t], ∀ c d i j, u.idxOf? c = some i → u.idxOf? d = some j → i < j →
        ∃ i' j', (s.union t).idxOf? c = some i' ∧ (s.union t).idxOf? d = some j' ∧ i' < j' := by
  refine ⟨fun cs ds => SortedSet.ofList_eq_iff, fun s => ?_, fun s t => ?_⟩
  · refine ⟨fun c i => SortedSet.get?_eq_some_iff.symm, fun c => SortedSet.idxOf?_isSome,
      fun c => SortedSet.exists_idxOf?_iff, fun c d i j hc hd => ?_,
      fun i => SortedSet.exists_idxOf?_eq_iff⟩
    rw [SortedSet.idxOf?_lt_iff hc hd]
    exact compareOfLessAndEq_eq_lt
  · refine ⟨fun c => SortedSet.mem_union, s.union_comm t, s.union_assoc t, s.union_self,
      fun u hu c d i j => SortedSet.idxOf?_lt_of_subset fun x hx => ?_⟩
    rw [SortedSet.mem_union]
    obtain rfl | hu := List.mem_cons.1 hu
    · exact .inl hx
    · obtain rfl := List.mem_singleton.1 hu
      exact .inr hx

/-- A symbol between two others moves the second of them one column on. -/
theorem columns_increasing_between :
    ∃ s t : Alphabet, s = .ofList "cac".toList ∧ t = .ofList ['b'] ∧
      s.idxOf? 'a' = some 0 ∧ s.idxOf? 'c' = some 1 ∧ 'a' < 'c' ∧
      (s.union t).idxOf? 'c' = some 2 ∧
      ∃ i j, (s.union t).idxOf? 'a' = some i ∧ (s.union t).idxOf? 'c' = some j ∧ i < j := by
  have ha : (SortedSet.ofList "cac".toList : Alphabet).idxOf? 'a' = some 0 := by decide
  have hc : (SortedSet.ofList "cac".toList : Alphabet).idxOf? 'c' = some 1 := by decide
  obtain ⟨-, hcolumns, hunion⟩ := columns_increasing
  have hlt := ((hcolumns _).2.2.2.1 'a' 'c' 0 1 ha hc).1 Nat.zero_lt_one
  have hkept := (hunion _ (.ofList ['b'])).2.2.2.2 _ List.mem_cons_self 'a' 'c' 0 1 ha hc
    Nat.zero_lt_one
  exact ⟨_, _, rfl, rfl, ha, hc, hlt, by decide, hkept⟩

end Alphabet

end RegexEquiv
