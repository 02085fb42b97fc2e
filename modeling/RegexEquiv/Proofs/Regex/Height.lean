import Mathlib.Data.Nat.Log
import RegexEquiv.Proofs.Regex.Outcome
import RegexEquiv.Proofs.Regex.PrintedDepth
import RegexEquiv.Proofs.Token.Depth

/-!
# How high the trees of patterns are

A balanced chain is higher than its members by the binary logarithm of their number
(`Regex.height_balanced_le`), and quantifiers stacked on an operand add at most two levels
(`Regex.height_stacked_le`). So a level of groups in a pattern makes its tree higher by a logarithm
of the length of the pattern only, and with the bound on open groups no tree is very high
(`Regex.height_of_parse`).
-/

namespace RegexEquiv

open Token

namespace Regex

/-- The number of nodes on the longest way from the root to a leaf. -/
def height : Regex → Nat
  | empty | epsilon | symbol _ => 1
  | cat left right | alt left right => max left.height right.height + 1
  | star inner | plus inner => inner.height + 1

variable {r : Regex} {rs : List Regex} {levels : Nat}

theorem height_pos (r : Regex) : 0 < r.height := by
  cases r with
  | empty | epsilon | symbol c => exact Nat.one_pos
  | cat | alt | star | plus => exact Nat.succ_pos _

/-! ## Chains -/

/-- Balancing a chain adds at most the binary logarithm of its length, rounded up. -/
theorem height_balanced_le {join : Regex → Regex → Regex} {unit : Regex}
    (hjoin : ∀ left right, (join left right).height = max left.height right.height + 1)
    (hunit : unit.height ≤ levels) (h : ∀ r ∈ rs, r.height ≤ levels) :
    (balanced join unit rs).height ≤ levels + Nat.clog 2 rs.length := by
  fun_induction balanced join unit rs with
  | case1 => exact Nat.le_trans hunit (Nat.le_add_right _ _)
  | case2 r => exact Nat.le_trans (h r (List.mem_singleton.2 rfl)) (Nat.le_add_right _ _)
  | case3 r s rest half ihl ihr =>
      have hleft := ihl fun t ht => h t (List.mem_of_mem_take ht)
      have hright := ihr fun t ht => h t (List.mem_of_mem_drop ht)
      have hlog : Nat.clog 2 (rest.length + 2) = Nat.clog 2 half + 1 :=
        Nat.clog_of_two_le (by omega) (by omega)
      -- The right half is not longer than the left one.
      have htake : Nat.clog 2 ((r :: s :: rest).take half).length ≤ Nat.clog 2 half :=
        Nat.clog_mono_right 2 (List.length_take_le _ _)
      have hdrop : Nat.clog 2 ((r :: s :: rest).drop half).length ≤ Nat.clog 2 half := by
        refine Nat.clog_mono_right 2 ?_
        rw [List.length_drop, List.length_cons, List.length_cons]
        omega
      rw [hjoin, List.length_cons, List.length_cons, hlog]
      omega

/-- A choice among symbols is as high as a balanced chain of them. -/
theorem height_oneOf_le {symbols alphabet : Alphabet} (h : ∀ c ∈ symbols, c ∈ alphabet) :
    (oneOf symbols).height ≤ 1 + Nat.clog 2 (max 1 alphabet.size) := by
  have hsize : symbols.toList.length ≤ alphabet.size :=
    symbols.nodup_toList.length_le_of_subset h
  have hlog : Nat.clog 2 (symbols.toList.map symbol).length ≤
      Nat.clog 2 (max 1 alphabet.size) := by
    refine Nat.clog_mono_right 2 ?_
    rw [List.length_map]
    omega
  have hheight : (oneOf symbols).height ≤ 1 + Nat.clog 2 (symbols.toList.map symbol).length :=
    height_balanced_le (fun _ _ => rfl) (Nat.le_refl 1) fun r hr => by
      obtain ⟨c, -, rfl⟩ := List.mem_map.1 hr
      exact Nat.le_refl 1
  omega

/-! ## Quantifiers -/

/-- `r.Raised levels` says that a tree is at most two levels higher than given, and only one level
where it is optional, unless it is a repetition. -/
structure Raised (r : Regex) (levels : Nat) : Prop where
  height_le : r.height ≤ levels + 2
  reason : r.height ≤ levels ∨ (r.height ≤ levels + 1 ∧ ∃ left, r = alt left epsilon) ∨
    ∃ inner, r = star inner ∨ r = plus inner

theorem raised_of_height_le (h : r.height ≤ levels) : r.Raised levels :=
  ⟨Nat.le_add_right_of_le h, .inl h⟩

theorem raised_star (h : r.height ≤ levels + 1) : (star r).Raised levels :=
  ⟨Nat.succ_le_succ h, .inr (.inr ⟨r, .inl rfl⟩)⟩

theorem raised_plus (h : r.height ≤ levels + 1) : (plus r).Raised levels :=
  ⟨Nat.succ_le_succ h, .inr (.inr ⟨r, .inr rfl⟩)⟩

/-- What is no repetition is raised by one level at most. -/
theorem Raised.height_le_of_not_repetition (h : r.Raised levels) (hstar : ∀ inner, r ≠ star inner)
    (hplus : ∀ inner, r ≠ plus inner) : r.height ≤ levels + 1 := by
  obtain hlow | ⟨honce, -⟩ | ⟨inner, rfl | rfl⟩ := h.reason
  · exact Nat.le_succ_of_le hlow
  · exact honce
  · exact absurd rfl (hstar inner)
  · exact absurd rfl (hplus inner)

theorem Raised.repeated (h : r.Raised levels) : (repeated r).Raised levels := by
  fun_cases Regex.repeated r with
  | case1 inner => exact h
  | case2 inner => exact raised_star (Nat.le_of_succ_le_succ h.height_le)
  | case3 _ hstar hplus => exact raised_star (h.height_le_of_not_repetition hstar hplus)

theorem Raised.repeatedOnce (h : r.Raised levels) : (repeatedOnce r).Raised levels := by
  fun_cases Regex.repeatedOnce r with
  | case1 inner => exact h
  | case2 inner => exact h
  | case3 _ hstar hplus => exact raised_plus (h.height_le_of_not_repetition hstar hplus)

/-- An optional tree is not made optional again, and neither is a repetition, so nothing else than
the operand itself is left. -/
theorem Raised.optional (h : r.Raised levels) : (optional r).Raised levels := by
  fun_cases Regex.optional r with
  | case1 inner => exact h
  | case2 left => exact h
  | case3 inner => exact raised_star (Nat.le_of_succ_le_succ h.height_le)
  | case4 _ hstar hoptional hplus =>
      obtain hlow | ⟨-, left, rfl⟩ | ⟨inner, rfl | rfl⟩ := h.reason
      · have hpos := r.height_pos
        have hheight : (alt r epsilon).height ≤ levels + 1 := by
          show max r.height 1 + 1 ≤ levels + 1
          omega
        exact ⟨Nat.le_succ_of_le hheight, .inr (.inl ⟨hheight, r, rfl⟩)⟩
      · exact absurd rfl (hoptional left)
      · exact absurd rfl (hstar inner)
      · exact absurd rfl (hplus inner)

theorem Raised.apply (h : r.Raised levels) (q : Quantifier) : (q.apply r).Raised levels := by
  cases q with
  | star => exact h.repeated
  | plus => exact h.repeatedOnce
  | optional => exact h.optional

theorem Raised.stacked (h : r.Raised levels) (qs : List Quantifier) :
    (qs.foldl (fun s q => q.apply s) r).Raised levels := by
  induction qs generalizing r with
  | nil => exact h
  | cons q qs ih => exact ih (h.apply q)

/-- Any number of quantifiers adds at most two levels to their operand. -/
theorem height_stacked_le (qs : List Quantifier) (r : Regex) :
    (qs.foldl (fun s q => q.apply s) r).height ≤ r.height + 2 :=
  ((raised_of_height_le (Nat.le_refl r.height)).stacked qs).height_le

end Regex

namespace Grammar

open Regex

/-! ## Phrases -/

/-- As many levels as a choice among the symbols of an alphabet may have, and for each level of
groups two for quantifiers and those of two chains with at most one member more than there are
tokens. -/
def levels (alphabet : Alphabet) (count depth : Nat) : Nat :=
  1 + Nat.clog 2 (max 1 alphabet.size) + depth * (2 + 2 * Nat.clog 2 (count + 1))

theorem levels_succ (alphabet : Alphabet) (count depth : Nat) :
    levels alphabet count (depth + 1) =
      levels alphabet count depth + 2 + 2 * Nat.clog 2 (count + 1) := by
  rw [levels, levels, Nat.succ_mul]
  omega

theorem levels_mono (alphabet : Alphabet) (count : Nat) {d e : Nat} (h : d ≤ e) :
    levels alphabet count d ≤ levels alphabet count e :=
  Nat.add_le_add_left (Nat.mul_le_mul_right _ h) _

theorem one_le_levels (alphabet : Alphabet) (count depth : Nat) :
    1 ≤ levels alphabet count depth := by
  rw [levels]
  omega

theorem Factor.kinds_ne_nil (f : Factor) : f.kinds ≠ [] := by
  cases f with
  | symbol | oneOf | wildcard => exact List.cons_ne_nil _ _
  | group inner => exact List.cons_ne_nil _ _
  | quantified operand q => exact List.append_ne_nil_of_right_ne_nil _ (List.cons_ne_nil _ _)

section Lengths

variable (alphabet : Alphabet)

/-- A term has no more factors than tokens. -/
theorem Term.length_trees_le (t : Term) :
    (t.trees .compact alphabet).length ≤ t.kinds.length := by
  cases t with
  | blank => exact Nat.le_refl 0
  | juxtaposed earlier last =>
      have hearlier := earlier.length_trees_le
      have hlast := List.length_pos_iff.2 last.kinds_ne_nil
      rw [Term.trees, Term.kinds, List.length_cons, List.length_append]
      omega

/-- An expression has at most one alternative more than tokens. -/
theorem Expression.length_trees_le (x : Expression) :
    (x.trees .compact alphabet).length ≤ x.kinds.length + 1 := by
  cases x with
  | single only => exact Nat.le_add_left 1 _
  | alternated earlier last =>
      have hearlier := earlier.length_trees_le
      rw [Expression.trees, Expression.kinds, List.length_cons, List.length_append,
        List.length_cons]
      omega

end Lengths

section Heights

variable {alphabet : Alphabet} {count : Nat}

/-- The tree of a term adds a chain of its factors. -/
theorem height_term_le {depth : Nat} {rs : List Regex} (hlen : rs.length ≤ count)
    (h : ∀ r ∈ rs, r.height ≤ levels alphabet count depth + 2) :
    (Builder.compact.term rs.reverse).height ≤
      levels alphabet count depth + 2 + Nat.clog 2 (count + 1) := by
  have hone := one_le_levels alphabet count depth
  have hlog : Nat.clog 2 rs.reverse.length ≤ Nat.clog 2 (count + 1) := by
    refine Nat.clog_mono_right 2 ?_
    rw [List.length_reverse]
    omega
  have hunit : epsilon.height ≤ levels alphabet count depth + 2 := Nat.le_add_right_of_le hone
  have hheight : (Builder.compact.term rs.reverse).height ≤
      levels alphabet count depth + 2 + Nat.clog 2 rs.reverse.length :=
    height_balanced_le (fun _ _ => rfl) hunit fun r hr => h r (List.mem_reverse.1 hr)
  omega

/-- The tree of an expression adds a chain of its alternatives. -/
theorem height_expression_le {depth : Nat} {rs : List Regex} (hlen : rs.length ≤ count + 1)
    (h : ∀ r ∈ rs, r.height ≤ levels alphabet count depth + 2 + Nat.clog 2 (count + 1)) :
    (Builder.compact.expression rs.reverse).height ≤ levels alphabet count (depth + 1) := by
  have hone := one_le_levels alphabet count depth
  have hlog : Nat.clog 2 rs.reverse.length ≤ Nat.clog 2 (count + 1) := by
    refine Nat.clog_mono_right 2 ?_
    rw [List.length_reverse]
    omega
  have hunit : epsilon.height ≤
      levels alphabet count depth + 2 + Nat.clog 2 (count + 1) := by
    show 1 ≤ _
    omega
  have hheight : (Builder.compact.expression rs.reverse).height ≤
      levels alphabet count depth + 2 + Nat.clog 2 (count + 1) + Nat.clog 2 rs.reverse.length :=
    height_balanced_le (fun _ _ => rfl) hunit fun r hr => h r (List.mem_reverse.1 hr)
  rw [levels_succ]
  omega

mutual
/-- The tree of a factor has a level of chains for each level of groups, and is raised by the
quantifiers on it. -/
theorem Factor.raised_tree : ∀ f : Factor, f.kinds.length ≤ count →
    (∀ kind ∈ f.kinds, kind.Over alphabet) →
    (f.tree .compact alphabet).Raised (levels alphabet count f.depth)
  | .symbol _, _, _ => raised_of_height_le (one_le_levels _ _ _)
  | .oneOf members, _, hover => by
      refine raised_of_height_le (Nat.le_trans (height_oneOf_le fun c hc => ?_)
        (Nat.le_add_right _ _))
      exact hover _ (List.mem_singleton.2 rfl) c (SortedSet.mem_ofList.1 hc)
  | .wildcard, _, _ => by
      rw [Factor.tree_wildcard]
      exact raised_of_height_le (Nat.le_trans (height_oneOf_le fun _ hc => hc)
        (Nat.le_add_right _ _))
  | .group inner, hlen, hover => by
      have hinner : inner.kinds.length ≤ count := by
        rw [Factor.kinds, List.length_append, List.length_cons] at hlen
        omega
      have hlength := inner.length_trees_le alphabet
      exact raised_of_height_le (height_expression_le (by omega)
        (inner.height_trees_le hinner fun kind hkind => hover kind (by simp [Factor.kinds, hkind])))
  | .quantified operand q, hlen, hover => by
      have hoperand : operand.kinds.length ≤ count := by
        rw [Factor.kinds, List.length_append] at hlen
        omega
      exact (operand.raised_tree hoperand fun kind hkind =>
        hover kind (List.mem_append_left _ hkind)).apply q

theorem Term.height_trees_le : ∀ t : Term, t.kinds.length ≤ count →
    (∀ kind ∈ t.kinds, kind.Over alphabet) →
    ∀ r ∈ t.trees .compact alphabet, r.height ≤ levels alphabet count t.depth + 2
  | .blank, _, _, _, hr => nomatch hr
  | .juxtaposed earlier last, hlen, hover, r, hr => by
      rw [Term.kinds, List.length_append] at hlen
      obtain ⟨hover, hoverLast⟩ := List.forall_mem_append.1 hover
      rw [Term.depth]
      obtain rfl | hr := List.mem_cons.1 hr
      · have hlast := (last.raised_tree (by omega) hoverLast).height_le
        have hlevels := levels_mono alphabet count (Nat.le_max_right earlier.depth last.depth)
        omega
      · have hearlier := earlier.height_trees_le (by omega) hover r hr
        have hlevels := levels_mono alphabet count (Nat.le_max_left earlier.depth last.depth)
        omega

theorem Expression.height_trees_le : ∀ x : Expression, x.kinds.length ≤ count →
    (∀ kind ∈ x.kinds, kind.Over alphabet) →
    ∀ r ∈ x.trees .compact alphabet,
      r.height ≤ levels alphabet count x.depth + 2 + Nat.clog 2 (count + 1)
  | .single only, hlen, hover, r, hr => by
      obtain rfl := List.mem_singleton.1 hr
      have hlength := only.length_trees_le alphabet
      exact height_term_le (Nat.le_trans hlength hlen) (only.height_trees_le hlen hover)
  | .alternated earlier last, hlen, hover, r, hr => by
      rw [Expression.kinds, List.length_append, List.length_cons] at hlen
      obtain ⟨hover, hoverLast⟩ := List.forall_mem_append.1 hover
      rw [Expression.depth]
      obtain rfl | hr := List.mem_cons.1 hr
      · have hlength := last.length_trees_le alphabet
        have hlen' : last.kinds.length ≤ count := by omega
        have hlast := height_term_le (Nat.le_trans hlength hlen')
          (last.height_trees_le hlen' (List.forall_mem_cons.1 hoverLast).2)
        have hlevels := levels_mono alphabet count (Nat.le_max_right earlier.depth last.depth)
        omega
      · have hearlier := earlier.height_trees_le (by omega) hover r hr
        have hlevels := levels_mono alphabet count (Nat.le_max_left earlier.depth last.depth)
        omega
end

/-- The tree of an expression has a level of chains for each level of groups and one more. -/
theorem Expression.height_tree_le (x : Expression) (hlen : x.kinds.length ≤ count)
    (hover : ∀ kind ∈ x.kinds, kind.Over alphabet) :
    (x.tree .compact alphabet).height ≤ levels alphabet count (x.depth + 1) := by
  have hlength := x.length_trees_le alphabet
  exact height_expression_le (by omega) (x.height_trees_le hlen hover)

end Heights

end Grammar

namespace Regex

open Grammar

variable {alphabet : Alphabet} {pattern : List Char} {r : Regex}

/-- Tokens that are read open no more groups at once than are allowed. -/
theorem deepest_le_of_ofTokens {tokens : List Token} (h : ofTokens alphabet tokens = .ok r) :
    deepest tokens ≤ maxNesting := by
  refine deepest_le_iff.2 fun front hfront => ?_
  obtain ⟨back, rfl⟩ := hfront
  rw [ofTokens_eq] at h
  obtain ⟨final, hrun, -⟩ := Except.bind_eq_ok_iff.1 h
  rw [Reader.run_append] at hrun
  obtain ⟨reader, hreader, -⟩ := Except.bind_eq_ok_iff.1 hrun
  have htracks := Reader.tracks_of_run hreader
  rw [htracks.openGroups_eq]
  exact htracks.bounded

/-- With the depth of groups in a pattern, the height of its tree grows by two levels and twice the
logarithm of the number of its tokens for each level of groups. Any number of quantifiers on one
operand makes up for the two. -/
theorem height_of_parse :
    (∀ {pattern alphabet r}, parse pattern alphabet = .ok r → ∃ tokens,
      Token.scan pattern = .ok tokens ∧ deepest tokens ≤ maxNesting ∧
      r.height ≤ 1 + Nat.clog 2 (max 1 alphabet.size) +
        (deepest tokens + 1) * (2 + 2 * Nat.clog 2 (tokens.length + 1))) ∧
    ∀ (qs : List Quantifier) (r : Regex),
      (qs.foldl (fun s q => q.apply s) r).height ≤ r.height + 2 := by
  refine ⟨fun {pattern alphabet r} h => ?_, height_stacked_le⟩
  obtain ⟨tokens, hscan, hread⟩ := parse_eq_ok_iff.1 h
  obtain ⟨x, hkinds, hover, -, rfl⟩ := ofTokens_eq_ok_iff.1 hread
  have hlen : x.kinds.length ≤ tokens.length := by
    rw [← hkinds, List.length_map]
  have hkindsOver : ∀ kind ∈ x.kinds, kind.Over alphabet := fun kind hkind => by
    rw [← hkinds] at hkind
    obtain ⟨t, ht, rfl⟩ := List.mem_map.1 hkind
    exact hover t ht
  have hdepth : x.depth ≤ deepest tokens := (x.climbs hkinds).le_deepest
  exact ⟨tokens, hscan, deepest_le_of_ofTokens hread,
    Nat.le_trans (x.height_tree_le hlen hkindsOver)
      (levels_mono alphabet tokens.length (Nat.succ_le_succ hdepth))⟩

/-- The tree of `(a|(bc)?+)*` has six levels, and its eleven tokens allow for 33. The two
quantifiers on `bc` add both of the levels that they may add. -/
theorem height_of_parse_six :
    parse "(a|(bc)?+)*".toList (.ofList ['a', 'b', 'c']) =
        .ok (star (alt (symbol 'a') (plus (alt (cat (symbol 'b') (symbol 'c')) epsilon)))) ∧
      (∃ tokens, Token.scan "(a|(bc)?+)*".toList = .ok tokens ∧ deepest tokens = 2 ∧
        (star (alt (symbol 'a') (plus (alt (cat (symbol 'b') (symbol 'c')) epsilon)))).height ≤
          1 + Nat.clog 2 3 + (2 + 1) * (2 + 2 * Nat.clog 2 (11 + 1))) ∧
      (plus (alt (cat (symbol 'b') (symbol 'c')) epsilon)).height ≤
        (cat (symbol 'b') (symbol 'c')).height + 2 := by
  have hparse : parse "(a|(bc)?+)*".toList (.ofList ['a', 'b', 'c']) =
      .ok (star (alt (symbol 'a') (plus (alt (cat (symbol 'b') (symbol 'c')) epsilon)))) := by
    decide +kernel
  obtain ⟨hbound, hstacked⟩ := height_of_parse
  obtain ⟨tokens, hscan, -, hheight⟩ := hbound hparse
  have hmeasure : (Token.scan "(a|(bc)?+)*".toList).map (fun ts => (deepest ts, ts.length)) =
      .ok (2, 11) := by decide +kernel
  rw [hscan] at hmeasure
  obtain ⟨hdeepest, hlength⟩ := Prod.mk.inj (Except.ok.inj hmeasure)
  have hsize : max 1 (SortedSet.ofList ['a', 'b', 'c']).size = 3 := by decide +kernel
  rw [hdeepest, hlength, hsize] at hheight
  exact ⟨hparse, ⟨tokens, hscan, hdeepest, hheight⟩,
    hstacked [.optional, .plus] (cat (symbol 'b') (symbol 'c'))⟩

end Regex

end RegexEquiv
