import RegexEquiv.Proofs.Regex.Language
import RegexEquiv.Regex.Parser

/-!
# The grammar of patterns

An expression is a chain of alternatives between bars, each of them a term; a term is a chain of
factors, possibly none; a factor is a symbol, a class, the wildcard or an expression in parentheses,
under any number of quantifiers. `kinds` gives the tokens that write a phrase, and `language` what
it means: a sum of products of the languages of the factors.

A phrase can be turned into a tree in more than one way. A `Builder` says how chains, classes and
quantifiers become trees, under the condition that this keeps languages. One builder balances chains
and collapses quantifiers (`Builder.compact`), another keeps everything as it is written
(`Builder.plain`). `Expression.language_tree` says that every builder gives an expression a tree
with the language of the expression.
-/

namespace RegexEquiv

namespace Grammar

mutual
/-- A factor: a symbol, a class, the wildcard or a group, or a factor under a quantifier. -/
inductive Factor where
  | symbol (c : Char)
  | oneOf (members : List ClassMember)
  | wildcard
  | group (inner : Expression)
  | quantified (operand : Factor) (q : Quantifier)

/-- A term: factors one after another. -/
inductive Term where
  | blank
  | juxtaposed (earlier : Term) (last : Factor)

/-- An expression: terms with bars between them. -/
inductive Expression where
  | single (only : Term)
  | alternated (earlier : Expression) (last : Term)
end

/-! ## Tokens -/

mutual
/-- The tokens that write a factor. -/
def Factor.kinds : Factor → List TokenKind
  | .symbol c => [.symbol c]
  | .oneOf members => [.oneOf members]
  | .wildcard => [.wildcard]
  | .group inner => .opening :: inner.kinds ++ [.closing]
  | .quantified operand q => operand.kinds ++ [.quantifier q]

/-- The tokens that write a term. -/
def Term.kinds : Term → List TokenKind
  | .blank => []
  | .juxtaposed earlier last => earlier.kinds ++ last.kinds

/-- The tokens that write an expression. -/
def Expression.kinds : Expression → List TokenKind
  | .single only => only.kinds
  | .alternated earlier last => earlier.kinds ++ .bar :: last.kinds
end

mutual
/-- The largest number of groups inside a factor that are open at once. -/
def Factor.depth : Factor → Nat
  | .symbol _ | .oneOf _ | .wildcard => 0
  | .group inner => inner.depth + 1
  | .quantified operand _ => operand.depth

/-- The largest number of groups inside a term that are open at once. -/
def Term.depth : Term → Nat
  | .blank => 0
  | .juxtaposed earlier last => max earlier.depth last.depth

/-- The largest number of groups inside an expression that are open at once. -/
def Expression.depth : Expression → Nat
  | .single only => only.depth
  | .alternated earlier last => max earlier.depth last.depth
end

/-! ## Languages -/

mutual
/-- The language of a factor, the wildcard standing for the symbols of an alphabet. -/
def Factor.language (alphabet : Alphabet) : Factor → Language Char
  | .symbol c => {[c]}
  | .oneOf members => {w : Word | ∃ m ∈ members, w = [m.symbol]}
  | .wildcard => {w : Word | ∃ c ∈ alphabet, w = [c]}
  | .group inner => inner.language alphabet
  | .quantified operand q => q.language (operand.language alphabet)

/-- The language of a term: the product of those of its factors. -/
def Term.language (alphabet : Alphabet) : Term → Language Char
  | .blank => 1
  | .juxtaposed earlier last => earlier.language alphabet * last.language alphabet

/-- The language of an expression: the sum of those of its alternatives. -/
def Expression.language (alphabet : Alphabet) : Expression → Language Char
  | .single only => only.language alphabet
  | .alternated earlier last => earlier.language alphabet + last.language alphabet
end

/-! ## Trees -/

/-- A way to put trees together that keeps languages. -/
structure Builder where
  /-- The tree of a chain of factors. -/
  term : List Regex → Regex
  /-- The tree of a chain of alternatives. -/
  expression : List Regex → Regex
  /-- The tree of a choice among symbols. -/
  oneOf : List Char → Regex
  /-- The tree of an operand under a quantifier. -/
  quantified : Quantifier → Regex → Regex
  language_term : ∀ rs, (term rs).language = (rs.map Regex.language).prod
  language_expression : ∀ rs, rs ≠ [] →
    (expression rs).language = (rs.map Regex.language).sum
  matches_oneOf : ∀ {cs w}, (oneOf cs).Matches w ↔ ∃ c ∈ cs, w = [c]
  language_quantified : ∀ q r, (quantified q r).language = q.language r.language

namespace Builder

/-- Chains become balanced trees, symbols of a class are put in order, and quantifiers collapse. -/
def compact : Builder where
  term := .balanced .cat .epsilon
  expression := .balanced .alt .epsilon
  oneOf cs := .oneOf (.ofList cs)
  quantified := Quantifier.apply
  language_term := Regex.language_balanced_cat
  language_expression rs h := by
    rw [Regex.balanced_unit .epsilon .empty h, Regex.language_balanced_alt]
  matches_oneOf := by
    intro cs w
    rw [Regex.oneOf, ← Regex.mem_language, Regex.language_balanced_alt,
      Regex.mem_sum_language_symbol]
    simp only [SortedSet.mem_toList, SortedSet.mem_ofList]
  language_quantified := Regex.language_apply

theorem compact_term_single (r : Regex) : compact.term [r] = r := Regex.balanced_single _ _ r

theorem compact_term_pair (r s : Regex) : compact.term [r, s] = .cat r s :=
  Regex.balanced_pair _ _ r s

theorem compact_expression_single (r : Regex) : compact.expression [r] = r :=
  Regex.balanced_single _ _ r

theorem compact_expression_pair (r s : Regex) : compact.expression [r, s] = .alt r s :=
  Regex.balanced_pair _ _ r s

/-- Chains become trees that lean to the right, and every quantifier stays. -/
def plain : Builder where
  term := .chain .cat .epsilon
  expression := .chain .alt .epsilon
  oneOf cs := .chain .alt .empty (cs.map .symbol)
  quantified
    | .star, r => .star r
    | .plus, r => .plus r
    | .optional, r => .alt r .epsilon
  language_term := Regex.language_chain_cat
  language_expression rs h := by
    rw [Regex.chain_unit .epsilon .empty h, Regex.language_chain_alt]
  matches_oneOf := by
    intro cs w
    rw [← Regex.mem_language, Regex.language_chain_alt, Regex.mem_sum_language_symbol]
  language_quantified q r := by
    cases q with
    | star => exact Regex.language_star r
    | plus => exact Regex.language_plus r
    | optional => exact (Regex.language_alt r .epsilon).trans (by rw [Regex.language_epsilon]; rfl)

end Builder

mutual
/-- The tree that a builder makes of a factor. -/
def Factor.tree (b : Builder) (alphabet : Alphabet) : Factor → Regex
  | .symbol c => .symbol c
  | .oneOf members => b.oneOf (members.map (·.symbol))
  | .wildcard => b.oneOf alphabet.toList
  | .group inner => b.expression (inner.trees b alphabet).reverse
  | .quantified operand q => b.quantified q (operand.tree b alphabet)

/-- The trees of the factors of a term, last first. -/
def Term.trees (b : Builder) (alphabet : Alphabet) : Term → List Regex
  | .blank => []
  | .juxtaposed earlier last => last.tree b alphabet :: earlier.trees b alphabet

/-- The trees of the alternatives of an expression, last first. -/
def Expression.trees (b : Builder) (alphabet : Alphabet) : Expression → List Regex
  | .single only => [b.term (only.trees b alphabet).reverse]
  | .alternated earlier last =>
      b.term (last.trees b alphabet).reverse :: earlier.trees b alphabet
end

/-- The tree that a builder makes of an expression. -/
def Expression.tree (b : Builder) (alphabet : Alphabet) (x : Expression) : Regex :=
  b.expression (x.trees b alphabet).reverse

/-- The balanced tree of the wildcard is a choice among the symbols of the alphabet. -/
theorem Factor.tree_wildcard (alphabet : Alphabet) :
    Factor.wildcard.tree .compact alphabet = .oneOf alphabet :=
  congrArg Regex.oneOf alphabet.ofList_toList

section Languages

variable (b : Builder) (alphabet : Alphabet)

theorem Expression.trees_ne_nil (x : Expression) : x.trees b alphabet ≠ [] := by
  cases x with
  | single only => exact List.cons_ne_nil _ _
  | alternated earlier last => exact List.cons_ne_nil _ _

mutual
/-- The tree of a factor has the language of the factor. -/
theorem Factor.language_tree : ∀ f : Factor,
    (f.tree b alphabet).language = f.language alphabet
  | .symbol c => by
      rw [Factor.tree, Factor.language, Regex.language_symbol]
  | .oneOf members => by
      refine Language.ext fun w => ?_
      rw [Factor.tree, Regex.mem_language, b.matches_oneOf]
      simp only [List.mem_map, exists_exists_and_eq_and]
      rfl
  | .wildcard => by
      refine Language.ext fun w => ?_
      rw [Factor.tree, Regex.mem_language, b.matches_oneOf]
      rfl
  | .group inner => by
      rw [Factor.tree, Factor.language, b.language_expression, inner.sum_trees]
      exact List.reverse_ne_nil_iff.2 (inner.trees_ne_nil b alphabet)
  | .quantified operand q => by
      rw [Factor.tree, Factor.language, b.language_quantified, operand.language_tree]

/-- The languages of the trees of the factors multiply to the language of the term. -/
theorem Term.prod_trees : ∀ t : Term,
    ((t.trees b alphabet).reverse.map Regex.language).prod = t.language alphabet
  | .blank => rfl
  | .juxtaposed earlier last => by
      rw [Term.trees, Term.language, List.reverse_cons, List.map_append, List.prod_append,
        earlier.prod_trees, List.map_singleton, List.prod_singleton, last.language_tree]

/-- The languages of the trees of the alternatives add up to the language of the expression. -/
theorem Expression.sum_trees : ∀ x : Expression,
    ((x.trees b alphabet).reverse.map Regex.language).sum = x.language alphabet
  | .single only => by
      rw [Expression.trees, Expression.language, List.reverse_singleton, List.map_singleton,
        List.sum_singleton, b.language_term, only.prod_trees]
  | .alternated earlier last => by
      rw [Expression.trees, Expression.language, List.reverse_cons, List.map_append,
        List.sum_append, earlier.sum_trees, List.map_singleton, List.sum_singleton,
        b.language_term, last.prod_trees]
end

/-- The tree of an expression has the language of the expression, whichever builder makes it. -/
theorem Expression.language_tree (x : Expression) :
    (x.tree b alphabet).language = x.language alphabet := by
  rw [Expression.tree, b.language_expression, x.sum_trees]
  exact List.reverse_ne_nil_iff.2 (x.trees_ne_nil b alphabet)

end Languages

end Grammar

end RegexEquiv
