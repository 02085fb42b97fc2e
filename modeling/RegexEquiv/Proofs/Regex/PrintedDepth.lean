import RegexEquiv.Proofs.Regex.RoundTrip
import RegexEquiv.Proofs.Token.Nesting

/-!
# How deep printed patterns nest

Printing encloses what need not be enclosed in a pattern: a class among other factors, an optional
factor, or nothing at all. `Regex.nesting` counts the parentheses that are open at once in the text
of a tree. For the tree of a pattern there are at most two more of them than groups are open at once
in the pattern (`Grammar.Expression.nesting_tree_le`). So what has been parsed can be printed and
parsed again, but for patterns that use all or all but one of the groups that may be open at once.
The text of what such a pattern is parsed as may be refused for its depth
(`Regex.parse_print_of_parse`).
-/

namespace RegexEquiv

open Token

/-! ## Groups among the tokens of a phrase -/

namespace Grammar

/-- A token that is a factor on its own opens no group. -/
theorem climbs_factor? {tokens : List Token} {kind : TokenKind} {f : Factor}
    (hf : kind.factor? = some f) (hkinds : tokens.map (·.kind) = [kind]) : Climbs tokens 0 := by
  obtain ⟨token, rfl, rfl⟩ := List.map_eq_singleton_iff.1 hkinds
  refine (balanced_singleton (fun ho => ?_) fun hc => ?_).climbs
  · rw [ho] at hf
    cases hf
  · rw [hc] at hf
    cases hf

mutual
/-- Among the tokens of a factor as many groups are open at once as its depth says. -/
theorem Factor.climbs {tokens : List Token} : ∀ f : Factor,
    tokens.map (·.kind) = f.kinds → Climbs tokens f.depth
  | .symbol c, hkinds => climbs_factor? (f := .symbol c) rfl hkinds
  | .oneOf members, hkinds => climbs_factor? (f := .oneOf members) rfl hkinds
  | .wildcard, hkinds => climbs_factor? (f := .wildcard) rfl hkinds
  | .group inner, hkinds => by
      obtain ⟨front, last, rfl, hfront, hlast⟩ := List.map_eq_append_iff.1 hkinds
      obtain ⟨o, body, rfl, ho, hbody⟩ := List.map_eq_cons_iff.1 hfront
      obtain ⟨c, rfl, hc⟩ := List.map_eq_singleton_iff.1 hlast
      exact (inner.climbs hbody).group ho hc
  | .quantified operand q, hkinds => by
      obtain ⟨front, last, rfl, hfront, hlast⟩ := List.map_eq_append_iff.1 hkinds
      obtain ⟨token, rfl, hq⟩ := List.map_eq_singleton_iff.1 hlast
      have htoken : Balanced [token] := balanced_singleton (by simp [hq]) (by simp [hq])
      have happend := (operand.climbs hfront).append htoken.climbs
      rwa [Nat.max_zero] at happend

theorem Term.climbs {tokens : List Token} : ∀ t : Term,
    tokens.map (·.kind) = t.kinds → Climbs tokens t.depth
  | .blank, hkinds => by
      obtain rfl := List.map_eq_nil_iff.1 hkinds
      exact balanced_nil.climbs
  | .juxtaposed earlier last, hkinds => by
      obtain ⟨front, back, rfl, hfront, hback⟩ := List.map_eq_append_iff.1 hkinds
      exact (earlier.climbs hfront).append (last.climbs hback)

/-- Among the tokens of an expression as many groups are open at once as its depth says. -/
theorem Expression.climbs {tokens : List Token} : ∀ x : Expression,
    tokens.map (·.kind) = x.kinds → Climbs tokens x.depth
  | .single only, hkinds => only.climbs hkinds
  | .alternated earlier last, hkinds => by
      obtain ⟨front, back, rfl, hfront, hback⟩ := List.map_eq_append_iff.1 hkinds
      obtain ⟨token, rest, rfl, hbar, hrest⟩ := List.map_eq_cons_iff.1 hback
      have htoken : Balanced [token] := balanced_singleton (by simp [hbar]) (by simp [hbar])
      have happend := (earlier.climbs hfront).append (htoken.climbs.append (last.climbs hrest))
      rwa [Nat.zero_max] at happend
end

end Grammar

/-! ## Parentheses of a printed tree -/

namespace Regex

/-- How many parentheses are open at once, at most, in the text of a tree that stands at a place. -/
def nesting : Place → Regex → Nat
  | _, empty => 0
  | _, epsilon => 1
  | _, symbol _ => 0
  | place, alt left right =>
      max (nesting .free left) (nesting .free right) + (place != .free).toNat
  | place, cat left right =>
      max (nesting .factor left) (nesting .factor right) + (place == .operand).toNat
  | _, star inner => nesting .operand inner
  | _, plus inner => nesting .operand inner

theorem nests_enclose {text : List Char} {depth : Nat} (h : Nests text depth) (enclosed : Bool) :
    Nests (enclose enclosed text) (depth + enclosed.toNat) := by
  cases enclosed with
  | false => exact h
  | true => exact h.group

theorem nests_printAt (place : Place) (r : Regex) :
    Nests (printAt place r) (nesting place r) := by
  induction r generalizing place with
  | empty =>
      rw [printAt, nesting]
      exact nests_brackets
  | epsilon =>
      rw [printAt, nesting]
      exact nests_nil.group
  | symbol c =>
      rw [printAt, nesting]
      exact nests_printSymbol c
  | alt left right ihl ihr =>
      have hbar : Nests ['|'] 0 := nests_bare (by decide)
      rw [printAt, nesting, ← Nat.zero_max (nesting .free right)]
      exact nests_enclose ((ihl .free).append (hbar.append (ihr .free))) _
  | cat left right ihl ihr =>
      rw [printAt, nesting]
      exact nests_enclose ((ihl .factor).append (ihr .factor)) _
  | star inner ih =>
      have hstar : Nests ['*'] 0 := nests_bare (by decide)
      rw [printAt, nesting, ← Nat.max_zero (nesting .operand inner)]
      exact (ih .operand).append hstar
  | plus inner ih =>
      have hplus : Nests ['+'] 0 := nests_bare (by decide)
      rw [printAt, nesting, ← Nat.max_zero (nesting .operand inner)]
      exact (ih .operand).append hplus

theorem mostOpen_print (r : Regex) : mostOpen 0 r.print = nesting .free r :=
  (nests_printAt .free r).mostOpen_eq

/-! ### Places -/

theorem nesting_le_operand (place : Place) (r : Regex) : nesting place r ≤ nesting .operand r := by
  cases r with
  | alt left right => exact Nat.add_le_add_left (Bool.toNat_le _) _
  | cat left right => exact Nat.add_le_add_left (Bool.toNat_le _) _
  | empty | epsilon | symbol c | star inner | plus inner => exact Nat.le_refl _

theorem nesting_free_le (place : Place) (r : Regex) : nesting .free r ≤ nesting place r := by
  cases r with
  | alt left right => exact Nat.le_add_right _ _
  | cat left right => exact Nat.le_add_right _ _
  | empty | epsilon | symbol c | star inner | plus inner => exact Nat.le_refl _

/-- No place adds more than one pair of parentheses. -/
theorem nesting_operand_le (r : Regex) : nesting .operand r ≤ nesting .free r + 1 := by
  cases r with
  | alt left right | cat left right => exact Nat.le_refl _
  | empty | epsilon | symbol c | star inner | plus inner => exact Nat.le_add_right _ _

/-! ### Trees of patterns -/

/-- `r.Shallow depth` says that the text of a tree nests at most two deeper than given, and only one
deeper where it stands free, unless the tree is a repetition. -/
structure Shallow (r : Regex) (depth : Nat) : Prop where
  operand : nesting .operand r ≤ depth + 2
  free : nesting .free r ≤ depth + 1 ∨ ∃ inner, r = star inner ∨ r = plus inner

variable {r : Regex} {rs : List Regex} {depth : Nat}

theorem shallow_of_free (h : nesting .free r ≤ depth + 1) : r.Shallow depth where
  operand := Nat.le_trans (nesting_operand_le r) (by omega)
  free := .inl h

theorem shallow_star (h : nesting .operand r ≤ depth + 2) : (star r).Shallow depth :=
  ⟨h, .inr ⟨r, .inl rfl⟩⟩

theorem shallow_plus (h : nesting .operand r ≤ depth + 2) : (plus r).Shallow depth :=
  ⟨h, .inr ⟨r, .inr rfl⟩⟩

theorem Shallow.repeated (h : r.Shallow depth) : (repeated r).Shallow depth := by
  fun_cases Regex.repeated r with
  | case1 inner => exact h
  | case2 inner => exact shallow_star h.operand
  | case3 => exact shallow_star h.operand

theorem Shallow.repeatedOnce (h : r.Shallow depth) : (repeatedOnce r).Shallow depth := by
  fun_cases Regex.repeatedOnce r with
  | case1 inner => exact h
  | case2 inner => exact h
  | case3 => exact shallow_plus h.operand

/-- Only a repetition may nest two deeper where it stands free, and a repetition is not made an
alternative. -/
theorem Shallow.optional (h : r.Shallow depth) : (optional r).Shallow depth := by
  fun_cases Regex.optional r with
  | case1 inner => exact h
  | case2 left => exact h
  | case3 inner => exact shallow_star h.operand
  | case4 _ hstar _ hplus =>
      obtain hfree | ⟨inner, rfl | rfl⟩ := h.free
      · refine shallow_of_free ?_
        show max (nesting .free r) 1 ≤ depth + 1
        omega
      · exact (hstar inner rfl).elim
      · exact (hplus inner rfl).elim

theorem Shallow.apply (h : r.Shallow depth) (q : Quantifier) : (q.apply r).Shallow depth := by
  cases q with
  | star => exact h.repeated
  | plus => exact h.repeatedOnce
  | optional => exact h.optional

/-- A chain nests no deeper than its members at a place where joining encloses nothing. -/
theorem nesting_balanced_le {place : Place} {join : Regex → Regex → Regex} {unit : Regex}
    (hjoin : ∀ left right,
      nesting place (join left right) ≤ max (nesting place left) (nesting place right))
    (hunit : nesting place unit ≤ depth) (h : ∀ r ∈ rs, nesting place r ≤ depth) :
    nesting place (balanced join unit rs) ≤ depth := by
  refine balanced_induction (P := fun r => nesting place r ≤ depth) hunit ?_ h
  intro left right hleft hright
  exact Nat.le_trans (hjoin left right) (Nat.max_le.2 ⟨hleft, hright⟩)

theorem nesting_balanced_alt_le {unit : Regex} (hunit : nesting .free unit ≤ depth)
    (h : ∀ r ∈ rs, nesting .free r ≤ depth) : nesting .free (balanced alt unit rs) ≤ depth :=
  nesting_balanced_le (fun _ _ => Nat.le_refl _) hunit h

theorem shallow_oneOf (symbols : Alphabet) (depth : Nat) : (oneOf symbols).Shallow depth := by
  refine shallow_of_free (nesting_balanced_alt_le (Nat.zero_le _) fun r hr => ?_)
  obtain ⟨c, -, rfl⟩ := List.mem_map.1 hr
  exact Nat.zero_le _

end Regex

namespace Grammar

open Regex

variable (alphabet : Alphabet)

/-- A chain of factors nests no deeper than its factors, and a blank one is written `()`. -/
theorem nesting_term_le {depth : Nat} {rs : List Regex}
    (h : ∀ r ∈ rs, nesting .factor r ≤ depth + 2) :
    nesting .free (Builder.compact.term rs.reverse) ≤ depth + 2 :=
  Nat.le_trans (nesting_free_le .factor _)
    (nesting_balanced_le (fun _ _ => Nat.le_refl _) (Nat.le_add_left 1 _)
      fun r hr => h r (List.mem_reverse.1 hr))

theorem nesting_expression_le {depth : Nat} {rs : List Regex}
    (h : ∀ r ∈ rs, nesting .free r ≤ depth + 2) :
    nesting .free (Builder.compact.expression rs.reverse) ≤ depth + 2 :=
  nesting_balanced_alt_le (Nat.le_add_left 1 _) fun r hr => h r (List.mem_reverse.1 hr)

mutual
/-- The tree of a factor nests at most two deeper than the factor. What is in a group stands free in
its parentheses, so they make up for one of the two. -/
theorem Factor.shallow_tree : ∀ f : Factor, (f.tree .compact alphabet).Shallow f.depth
  | .symbol _ => shallow_of_free (Nat.zero_le _)
  | .oneOf _ => shallow_oneOf _ _
  | .wildcard => shallow_oneOf _ _
  | .group inner => shallow_of_free (nesting_expression_le inner.nesting_trees_le)
  | .quantified operand q => operand.shallow_tree.apply q

theorem Term.nesting_trees_le : ∀ t : Term,
    ∀ r ∈ t.trees .compact alphabet, nesting .factor r ≤ t.depth + 2
  | .blank, _, hr => nomatch hr
  | .juxtaposed earlier last, r, hr => by
      rw [Term.depth]
      obtain rfl | hr := List.mem_cons.1 hr
      · have hlast := last.shallow_tree.operand
        have hplace := nesting_le_operand .factor (last.tree .compact alphabet)
        omega
      · have hearlier := earlier.nesting_trees_le r hr
        omega

theorem Expression.nesting_trees_le : ∀ x : Expression,
    ∀ r ∈ x.trees .compact alphabet, nesting .free r ≤ x.depth + 2
  | .single only, r, hr => by
      obtain rfl := List.mem_singleton.1 hr
      exact nesting_term_le only.nesting_trees_le
  | .alternated earlier last, r, hr => by
      rw [Expression.depth]
      obtain rfl | hr := List.mem_cons.1 hr
      · have hlast := nesting_term_le last.nesting_trees_le
        omega
      · have hearlier := earlier.nesting_trees_le r hr
        omega
end

/-- The text of the tree of an expression nests at most two deeper than the expression. -/
theorem Expression.nesting_tree_le (x : Expression) :
    nesting .free (x.tree .compact alphabet) ≤ x.depth + 2 :=
  nesting_expression_le (x.nesting_trees_le alphabet)

end Grammar

/-! ## What has been parsed, printed and parsed again -/

namespace Regex

open Grammar

variable {alphabet : Alphabet} {text : List Char} {x : Expression}

/-- A written text is split into tokens over the alphabet. -/
theorem Written.scan {kinds : List TokenKind} {depth : Nat}
    (h : Written alphabet text kinds depth) : ∃ tokens, Token.scan text = .ok tokens ∧
      tokens.map (·.kind) = kinds ∧ ∀ t ∈ tokens, t.kind.Over alphabet := by
  obtain ⟨tokens, hscan, hkinds⟩ := h.spells.scan
  exact ⟨tokens, hscan, hkinds, fun t ht => h.symbols _ (hkinds ▸ List.mem_map_of_mem ht)⟩

/-- The text of an expression that does not nest too deep is read as the tree of the expression. -/
theorem Written.parse_eq_ok (h : Written alphabet text x.kinds x.depth)
    (hdepth : x.depth ≤ maxNesting) : parse text alphabet = .ok (x.tree .compact alphabet) := by
  obtain ⟨tokens, hscan, hkinds, hover⟩ := h.scan
  exact parse_eq_ok_iff.2 ⟨tokens, hscan, ofTokens_eq_ok_iff.2 ⟨x, hkinds, hover, hdepth, rfl⟩⟩

/-- The text of an expression that nests too deep is refused for that. -/
theorem Written.parse_eq_error (h : Written alphabet text x.kinds x.depth)
    (hdeep : maxNesting < x.depth) :
    ∃ position, parse text alphabet = .error ⟨⟨position, .nestingTooDeep⟩, text⟩ := by
  obtain ⟨tokens, hscan, hkinds, hover⟩ := h.scan
  obtain ⟨position, hposition⟩ := ofTokens_of_tooDeep hkinds hover hdeep
  refine ⟨position, ?_⟩
  rw [parse_of_scan hscan, hposition]
  rfl

/-- A tree over an alphabet is printed as the text of an expression with the language of the tree
and the depth of the text. -/
theorem exists_written_print {r : Regex} (hr : r.Over alphabet) :
    ∃ y : Expression, Written alphabet r.print y.kinds y.depth ∧
      y.language alphabet = r.language ∧ y.depth = nesting .free r := by
  obtain ⟨y, hwritten, hlanguage⟩ : Place.Writes alphabet .free r.print r.language :=
    writes_printAt hr .free
  exact ⟨y, hwritten, hlanguage, hwritten.nests.mostOpen_eq.symm.trans (mostOpen_print r)⟩

/-- What a pattern has been parsed as is printed as a text that is parsed as a tree of the same
language. The only exception is that the text is refused for its depth, and then the pattern itself
has all or all but one of the groups open at once that may be. -/
theorem parse_print_of_parse {pattern : List Char} {r : Regex}
    (h : parse pattern alphabet = .ok r) :
    (∃ r', parse r.print alphabet = .ok r' ∧ r'.language = r.language) ∨
      (∃ position, parse r.print alphabet = .error ⟨⟨position, .nestingTooDeep⟩, r.print⟩) ∧
        ∃ tokens front back, Token.scan pattern = .ok tokens ∧ front ++ back = tokens ∧
          maxNesting < openGroups front + 2 := by
  obtain ⟨y, hwritten, hlanguage, hdepth⟩ := exists_written_print (over_of_parse h)
  obtain ⟨tokens, hscan, hread⟩ := parse_eq_ok_iff.1 h
  obtain ⟨x, hkinds, -, -, rfl⟩ := ofTokens_eq_ok_iff.1 hread
  by_cases hfits : y.depth ≤ maxNesting
  · exact .inl ⟨_, hwritten.parse_eq_ok hfits, (y.language_tree .compact alphabet).trans hlanguage⟩
  · refine .inr ⟨hwritten.parse_eq_error (Nat.lt_of_not_le hfits), ?_⟩
    obtain ⟨front, back, hsplit, hreached⟩ := (x.climbs hkinds).reached
    refine ⟨tokens, front, back, hscan, hsplit, ?_⟩
    have hopen : openGroups front = x.depth := by
      rw [openGroups, hreached, Nat.add_sub_cancel_left]
    have hbound := x.nesting_tree_le alphabet
    omega

/-- The optional symbol of `(ab?)*` is printed in parentheses. -/
theorem parse_print_of_parse_optional :
    parse "(ab?)*".toList (.ofList ['a', 'b']) =
        .ok (star (cat (symbol 'a') (alt (symbol 'b') epsilon))) ∧
      (star (cat (symbol 'a') (alt (symbol 'b') epsilon))).print = "(a(b|()))*".toList ∧
      ∃ r', parse "(a(b|()))*".toList (.ofList ['a', 'b']) = .ok r' ∧
        r'.language = (star (cat (symbol 'a') (alt (symbol 'b') epsilon))).language := by
  have hparse : parse "(ab?)*".toList (.ofList ['a', 'b']) =
      .ok (star (cat (symbol 'a') (alt (symbol 'b') epsilon))) := by decide +kernel
  have hprint : (star (cat (symbol 'a') (alt (symbol 'b') epsilon))).print =
      "(a(b|()))*".toList := by decide +kernel
  have hagain : (parse "(a(b|()))*".toList (.ofList ['a', 'b'])).isOk = true := by decide +kernel
  refine ⟨hparse, hprint, ?_⟩
  obtain hread | ⟨⟨position, hrefused⟩, -⟩ := parse_print_of_parse hparse
  · rwa [hprint] at hread
  · rw [hprint] at hrefused
    rw [hrefused] at hagain
    cases hagain

/-! ### A pattern whose tree is printed too deep -/

/-- Groups in groups, each of them repeated, and an optional symbol inside. -/
def stackedPattern : Nat → List Char
  | 0 => ['b', '?']
  | n + 1 => '(' :: 'a' :: stackedPattern n ++ [')', '*']

/-- The factor that groups in groups write. -/
def stackedFactor : Nat → Factor
  | 0 => .quantified (.symbol 'b') .optional
  | n + 1 => .quantified
      (.group (.single (.juxtaposed (.juxtaposed .blank (.symbol 'a')) (stackedFactor n)))) .star

theorem written_stacked (n : Nat) :
    Written (.ofList ['a', 'b']) (stackedPattern n) (stackedFactor n).kinds n := by
  have ha : Written (.ofList ['a', 'b']) ['a'] [.symbol 'a'] 0 :=
    written_symbol (c := 'a') (SortedSet.mem_ofList.2 (by decide))
  have hb : Written (.ofList ['a', 'b']) ['b'] [.symbol 'b'] 0 :=
    written_symbol (c := 'b') (SortedSet.mem_ofList.2 (by decide))
  induction n with
  | zero => exact hb.append (written_mark .optional)
  | succ n ih =>
      have hround := (ha.append ih).group.append (written_mark .star)
      rw [Nat.zero_max, Nat.max_zero] at hround
      have htext : stackedPattern (n + 1) =
          '(' :: (['a'] ++ stackedPattern n) ++ [')'] ++ [Quantifier.star.mark] := by
        simp [stackedPattern, Quantifier.mark]
      rw [htext]
      exact hround

theorem depth_stackedFactor (n : Nat) : (stackedFactor n).depth = n := by
  induction n with
  | zero => rfl
  | succ n ih => simp [stackedFactor, Factor.depth, Expression.depth, Term.depth, ih]

theorem tree_stackedFactor_succ (n : Nat) (alphabet : Alphabet) :
    (stackedFactor (n + 1)).tree .compact alphabet =
      star (cat (symbol 'a') ((stackedFactor n).tree .compact alphabet)) := by
  simp [stackedFactor, Factor.tree, Expression.trees, Term.trees, Builder.compact, balanced,
    Quantifier.apply, repeated]

/-- The parentheses around the optional symbol and around nothing come on top of the groups. -/
theorem nesting_stackedFactor (n : Nat) (alphabet : Alphabet) :
    nesting .factor ((stackedFactor n).tree .compact alphabet) = n + 2 := by
  induction n with
  | zero => rfl
  | succ n ih =>
      rw [tree_stackedFactor_succ]
      show max 0 (nesting .factor ((stackedFactor n).tree .compact alphabet)) + 1 = n + 1 + 2
      rw [ih, Nat.zero_max]

/-- With one group less than may be open at once, the pattern is accepted, and the text of its tree
is refused. -/
theorem not_parse_print_stacked :
    ∃ r, parse (stackedPattern (maxNesting - 1)) (.ofList ['a', 'b']) = .ok r ∧
      ∃ position, parse r.print (.ofList ['a', 'b']) =
        .error ⟨⟨position, .nestingTooDeep⟩, r.print⟩ := by
  let x : Expression := .single (.juxtaposed .blank (stackedFactor 255))
  have hdepth : x.depth = 255 := (Nat.zero_max _).trans (depth_stackedFactor 255)
  have hwritten : Written (.ofList ['a', 'b']) (stackedPattern 255) x.kinds x.depth := by
    rw [hdepth]
    exact written_stacked 255
  have hparse := hwritten.parse_eq_ok (by rw [hdepth]; decide)
  refine ⟨_, hparse, ?_⟩
  obtain ⟨y, hy, -, hnesting⟩ := exists_written_print (over_of_parse hparse)
  refine hy.parse_eq_error ?_
  have htree : x.tree .compact (.ofList ['a', 'b']) =
      star (cat (symbol 'a') ((stackedFactor 254).tree .compact (.ofList ['a', 'b']))) := by
    rw [← tree_stackedFactor_succ]
    simp [x, Expression.tree, Expression.trees, Term.trees, Builder.compact, balanced]
  rw [hnesting, htree]
  show 256 < max 0 (nesting .factor ((stackedFactor 254).tree .compact _)) + 1
  rw [nesting_stackedFactor]
  decide

end Regex

end RegexEquiv
