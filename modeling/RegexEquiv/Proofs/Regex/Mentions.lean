import RegexEquiv.Proofs.Regex.Reading
import RegexEquiv.Proofs.Regex.Symbols

/-!
# Which symbols a pattern mentions

A token mentions the symbols that it writes, and a wildcard mentions the whole alphabet. Nothing
that is mentioned gets lost while a pattern is read, neither when chains are balanced nor when
quantifiers collapse, and nothing is added: the tree of a phrase has at its leaves just the symbols
that the tokens of the phrase mention (`Grammar.Expression.mem_leaves_tree`). So the symbols of what
a pattern is read as are those that its tokens mention: `Regex.mem_symbols_of_parse`.
-/

namespace RegexEquiv

/-- `kind.Mentions alphabet c` says that a token stands for the symbol `c`, among others perhaps,
when a pattern is read over an alphabet. -/
def TokenKind.Mentions (alphabet : Alphabet) (kind : TokenKind) (c : Char) : Prop :=
  c ∈ kind.symbols ∨ kind = .wildcard ∧ c ∈ alphabet

variable {alphabet : Alphabet} {c : Char}

namespace Regex

/-- Balancing a chain keeps all leaves, in order. -/
theorem leaves_balanced {join : Regex → Regex → Regex} {unit : Regex} (hunit : unit.leaves = [])
    (hjoin : ∀ left right, (join left right).leaves = left.leaves ++ right.leaves)
    (rs : List Regex) : (balanced join unit rs).leaves = rs.flatMap leaves := by
  rw [map_balanced hunit hjoin, List.foldr_map, List.foldr_append_eq_append,
    List.append_nil, List.flatMap_def]

theorem mem_leaves_balanced_cat {rs : List Regex} :
    c ∈ (balanced cat epsilon rs.reverse).leaves ↔ ∃ r ∈ rs, c ∈ r.leaves := by
  simp [@leaves_balanced cat epsilon rfl fun _ _ => rfl]

theorem mem_leaves_balanced_alt {rs : List Regex} :
    c ∈ (balanced alt epsilon rs.reverse).leaves ↔ ∃ r ∈ rs, c ∈ r.leaves := by
  simp [@leaves_balanced alt epsilon rfl fun _ _ => rfl]

theorem mem_leaves_oneOf {symbols : Alphabet} : c ∈ (oneOf symbols).leaves ↔ c ∈ symbols := by
  rw [oneOf, leaves_balanced rfl fun _ _ => rfl, List.mem_flatMap]
  simp [leaves, SortedSet.mem_toList]

end Regex

namespace Grammar

/-- Some tokens mention a symbol. -/
def Mentioned (alphabet : Alphabet) (kinds : List TokenKind) (c : Char) : Prop :=
  ∃ kind ∈ kinds, kind.Mentions alphabet c

@[simp]
theorem not_mentioned_nil : ¬ Mentioned alphabet [] c := fun h => nomatch h.choose_spec.1

@[simp]
theorem mentioned_append {kinds more : List TokenKind} :
    Mentioned alphabet (kinds ++ more) c ↔
      Mentioned alphabet kinds c ∨ Mentioned alphabet more c := by
  simp [Mentioned, or_and_right, exists_or]

@[simp]
theorem mentioned_cons {kind : TokenKind} {more : List TokenKind} :
    Mentioned alphabet (kind :: more) c ↔ kind.Mentions alphabet c ∨ Mentioned alphabet more c := by
  simp [Mentioned]

/-- A token that is no factor on its own mentions nothing. -/
theorem not_mentions_of_factor? {kind : TokenKind} (h : kind.factor? = none) :
    ¬ kind.Mentions alphabet c := by
  cases kind with
  | symbol | oneOf | wildcard => cases h
  | _ => simp [TokenKind.Mentions, TokenKind.symbols]

mutual
/-- The leaves of the tree of a factor are the symbols that its tokens mention. -/
theorem Factor.mem_leaves_tree : ∀ f : Factor,
    c ∈ (f.tree .compact alphabet).leaves ↔ Mentioned alphabet f.kinds c
  | .symbol d => by
      simp [Factor.tree, Factor.kinds, Regex.leaves, TokenKind.Mentions, TokenKind.symbols]
  | .oneOf members => by
      rw [Factor.tree]
      show c ∈ (Regex.oneOf (.ofList (members.map (·.symbol)))).leaves ↔ _
      rw [Regex.mem_leaves_oneOf, SortedSet.mem_ofList]
      simp [Factor.kinds, TokenKind.Mentions, TokenKind.symbols]
  | .wildcard => by
      rw [Factor.tree_wildcard, Regex.mem_leaves_oneOf]
      simp [Factor.kinds, TokenKind.Mentions, TokenKind.symbols]
  | .group inner => by
      rw [Factor.kinds, List.cons_append, mentioned_cons, mentioned_append, mentioned_cons,
        or_iff_right (not_mentions_of_factor? rfl), ← inner.mem_leaves_trees]
      simp only [not_mentions_of_factor? (show TokenKind.factor? .closing = none from rfl),
        not_mentioned_nil, or_false]
      exact Regex.mem_leaves_balanced_alt
  | .quantified operand q => by
      rw [Factor.kinds, mentioned_append, mentioned_cons, ← operand.mem_leaves_tree]
      simp only [not_mentions_of_factor? (show TokenKind.factor? (.quantifier q) = none from rfl),
        not_mentioned_nil, or_false]
      exact iff_of_eq (congrArg (c ∈ ·) (Quantifier.leaves_apply q _))

/-- The leaves of the trees of the factors of a term are the symbols that its tokens mention. -/
theorem Term.mem_leaves_trees : ∀ t : Term,
    (∃ r ∈ t.trees .compact alphabet, c ∈ r.leaves) ↔ Mentioned alphabet t.kinds c
  | .blank => by simp [Term.trees, Term.kinds]
  | .juxtaposed earlier last => by
      rw [Term.trees, Term.kinds, mentioned_append, ← last.mem_leaves_tree,
        ← earlier.mem_leaves_trees, List.exists_mem_cons_iff, or_comm]

/-- The leaves of the trees of the alternatives of an expression are the symbols that its tokens
mention. -/
theorem Expression.mem_leaves_trees : ∀ x : Expression,
    (∃ r ∈ x.trees .compact alphabet, c ∈ r.leaves) ↔ Mentioned alphabet x.kinds c
  | .single only => by
      rw [Expression.trees, Expression.kinds, ← only.mem_leaves_trees, List.exists_mem_cons_iff]
      simp only [List.not_mem_nil, false_and, exists_false, or_false]
      exact Regex.mem_leaves_balanced_cat
  | .alternated earlier last => by
      rw [Expression.trees, Expression.kinds, mentioned_append, mentioned_cons,
        or_iff_right (not_mentions_of_factor? rfl), ← earlier.mem_leaves_trees,
        ← last.mem_leaves_trees, List.exists_mem_cons_iff, or_comm]
      exact or_congr_right Regex.mem_leaves_balanced_cat
end

/-- The leaves of the tree of an expression are the symbols that its tokens mention. -/
theorem Expression.mem_leaves_tree (x : Expression) :
    c ∈ (x.tree .compact alphabet).leaves ↔ Mentioned alphabet x.kinds c :=
  Regex.mem_leaves_balanced_alt.trans x.mem_leaves_trees

end Grammar

/-- The symbols of what a pattern is read as are those that its tokens mention. -/
theorem Regex.mem_symbols_of_parse {pattern : List Char} {r : Regex}
    (h : parse pattern alphabet = .ok r) : ∃ tokens, Token.scan pattern = .ok tokens ∧
      ∀ c, c ∈ r.symbols ↔ ∃ t ∈ tokens, t.kind.Mentions alphabet c := by
  obtain ⟨tokens, hscan, hread⟩ := parse_eq_ok_iff.1 h
  obtain ⟨x, hkinds, -, -, rfl⟩ := ofTokens_eq_ok_iff.1 hread
  refine ⟨tokens, hscan, fun c => ?_⟩
  rw [symbols, SortedSet.mem_ofList, x.mem_leaves_tree, ← hkinds]
  simp only [Grammar.Mentioned, List.mem_map, exists_exists_and_eq_and]

end RegexEquiv
