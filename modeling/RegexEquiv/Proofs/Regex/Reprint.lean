import RegexEquiv.Proofs.Regex.PrintedDepth

/-!
# Printing what has been printed and read

The text of a tree is read as a tree that may have another shape, since chains are balanced again,
but it is printed in the same way (`Regex.Resembles`). For this no repetition may stand directly
under another, as the reader would collapse the two (`Regex.Tight`). The reader itself never makes
such a tree, so the text of what it has made is stable (`Regex.print_parse_print`).
-/

namespace RegexEquiv

open Token

namespace Regex

open Grammar

/-! ## Trees without stacked repetitions -/

/-- Whether a tree is a repetition. -/
def isRepetition : Regex → Bool
  | star _ | plus _ => true
  | _ => false

/-- No repetition stands directly under another. -/
def Tight : Regex → Prop
  | empty | epsilon | symbol _ => True
  | cat left right | alt left right => left.Tight ∧ right.Tight
  | star inner | plus inner => inner.isRepetition = false ∧ inner.Tight

variable {r : Regex}

theorem isRepetition_eq_false (hstar : ∀ inner, r ≠ star inner) (hplus : ∀ inner, r ≠ plus inner) :
    r.isRepetition = false := by
  cases r with
  | star inner => exact absurd rfl (hstar inner)
  | plus inner => exact absurd rfl (hplus inner)
  | empty | epsilon | symbol | cat | alt => rfl

/-- Quantifiers collapse on a repetition and do not stack. -/
theorem Tight.apply (h : r.Tight) (q : Quantifier) : (q.apply r).Tight := by
  cases q with
  | star =>
      show (repeated r).Tight
      fun_cases Regex.repeated r with
      | case1 inner | case2 inner => exact h
      | case3 _ hstar hplus => exact ⟨isRepetition_eq_false hstar hplus, h⟩
  | plus =>
      show (repeatedOnce r).Tight
      fun_cases Regex.repeatedOnce r with
      | case1 inner | case2 inner => exact h
      | case3 _ hstar hplus => exact ⟨isRepetition_eq_false hstar hplus, h⟩
  | optional =>
      show (optional r).Tight
      fun_cases Regex.optional r with
      | case1 inner | case2 left | case3 inner => exact h
      | case4 => exact ⟨h, trivial⟩

theorem tight_oneOf (symbols : Alphabet) : (oneOf symbols).Tight := by
  refine balanced_induction trivial (fun _ _ => And.intro) fun r hr => ?_
  obtain ⟨c, -, rfl⟩ := List.mem_map.1 hr
  exact trivial

end Regex

namespace Grammar

open Regex

variable (alphabet : Alphabet)

theorem tight_term {rs : List Regex} (h : ∀ r ∈ rs, r.Tight) :
    (Builder.compact.term rs.reverse).Tight :=
  balanced_induction trivial (fun _ _ => And.intro) fun r hr => h r (List.mem_reverse.1 hr)

theorem tight_expression {rs : List Regex} (h : ∀ r ∈ rs, r.Tight) :
    (Builder.compact.expression rs.reverse).Tight :=
  balanced_induction trivial (fun _ _ => And.intro) fun r hr => h r (List.mem_reverse.1 hr)

mutual
/-- The reader stacks no repetitions. -/
theorem Factor.tight_tree : ∀ f : Factor, (f.tree .compact alphabet).Tight
  | .symbol _ => trivial
  | .oneOf _ => tight_oneOf _
  | .wildcard => tight_oneOf _
  | .group inner => tight_expression inner.tight_trees
  | .quantified operand q => operand.tight_tree.apply q

theorem Term.tight_trees : ∀ t : Term, ∀ r ∈ t.trees .compact alphabet, r.Tight
  | .blank => nofun
  | .juxtaposed earlier last => List.forall_mem_cons.2 ⟨last.tight_tree, earlier.tight_trees⟩

theorem Expression.tight_trees : ∀ x : Expression, ∀ r ∈ x.trees .compact alphabet, r.Tight
  | .single only => List.forall_mem_singleton.2 (tight_term only.tight_trees)
  | .alternated earlier last =>
      List.forall_mem_cons.2 ⟨tight_term last.tight_trees, earlier.tight_trees⟩
end

theorem Expression.tight_tree (x : Expression) : (x.tree .compact alphabet).Tight :=
  tight_expression (x.tight_trees alphabet)

end Grammar

namespace Regex

open Grammar

variable {r s t : Regex}

/-! ## Trees that are printed alike -/

/-- `r.Resembles s` says that two trees are printed alike at every place, and both or neither of
them are repetitions. -/
structure Resembles (r s : Regex) : Prop where
  text : ∀ place, printAt place r = printAt place s
  repetition : r.isRepetition = s.isRepetition

theorem Resembles.refl (r : Regex) : r.Resembles r := ⟨fun _ => rfl, rfl⟩

theorem Resembles.symm (h : r.Resembles s) : s.Resembles r :=
  ⟨fun place => (h.text place).symm, h.repetition.symm⟩

theorem Resembles.trans (h : r.Resembles s) (h' : s.Resembles t) : r.Resembles t :=
  ⟨fun place => (h.text place).trans (h'.text place), h.repetition.trans h'.repetition⟩

/-- `Regroups join` says that trees joined by `join` are printed alike however they are grouped, and
if their parts are printed alike. -/
structure Regroups (join : Regex → Regex → Regex) : Prop where
  congr : ∀ {r r' s s' : Regex}, r.Resembles r' → s.Resembles s' →
    (join r s).Resembles (join r' s')
  assoc : ∀ r s t : Regex, (join (join r s) t).Resembles (join r (join s t))

theorem regroups_cat : Regroups cat where
  congr h h' := by
    refine ⟨fun place => ?_, rfl⟩
    rw [printAt, printAt, h.text, h'.text]
  assoc r s t := by
    refine ⟨fun place => congrArg (enclose (place == .operand)) ?_, rfl⟩
    exact List.append_assoc _ _ _

theorem regroups_alt : Regroups alt where
  congr h h' := by
    refine ⟨fun place => ?_, rfl⟩
    rw [printAt, printAt, h.text, h'.text]
  assoc r s t := by
    refine ⟨fun place => congrArg (enclose (place != .free)) ?_, rfl⟩
    exact List.append_assoc _ _ _

section Chains

variable {join : Regex → Regex → Regex} (unit : Regex) {rs ss : List Regex}

/-- Two chains joined are printed like the chain of all their members. Neither may be blank, since
the unit is printed as well. -/
theorem Regroups.chain_append (hjoin : Regroups join) (hrs : rs ≠ []) (hss : ss ≠ []) :
    (chain join unit (rs ++ ss)).Resembles (join (chain join unit rs) (chain join unit ss)) := by
  fun_induction chain join unit rs with
  | case1 => exact absurd rfl hrs
  | case2 r =>
      obtain ⟨s, rest, rfl⟩ := List.exists_cons_of_ne_nil hss
      exact .refl _
  | case3 r s rest ih =>
      have hrest := hjoin.congr (.refl r) (ih (List.cons_ne_nil s rest))
      exact hrest.trans (hjoin.assoc _ _ _).symm

/-- A balanced chain is printed like one that leans to the right. -/
theorem Regroups.balanced_chain (hjoin : Regroups join) (rs : List Regex) :
    (balanced join unit rs).Resembles (chain join unit rs) := by
  fun_induction balanced join unit rs with
  | case1 | case2 r => exact .refl _
  | case3 r s rest half ihl ihr =>
      obtain ⟨htake, hdrop⟩ := halves_ne_nil r s rest
      have happend := hjoin.chain_append unit htake hdrop
      rw [List.take_append_drop] at happend
      exact (hjoin.congr ihl ihr).trans happend.symm

theorem Regroups.balanced_append (hjoin : Regroups join) (hrs : rs ≠ []) (hss : ss ≠ []) :
    (balanced join unit (rs ++ ss)).Resembles
      (join (balanced join unit rs) (balanced join unit ss)) :=
  (hjoin.balanced_chain unit _).trans <| (hjoin.chain_append unit hrs hss).trans <|
    (hjoin.congr (hjoin.balanced_chain unit rs) (hjoin.balanced_chain unit ss)).symm

end Chains

/-! ## The tree of a printed text -/

theorem Resembles.star (h : r.Resembles s) : (star r).Resembles (star s) where
  text place := by rw [printAt, printAt, h.text]
  repetition := rfl

theorem Resembles.plus (h : r.Resembles s) : (plus r).Resembles (plus s) where
  text place := by rw [printAt, printAt, h.text]
  repetition := rfl

theorem repeated_of_isRepetition_eq_false (h : r.isRepetition = false) : repeated r = star r := by
  cases r with
  | star | plus => cases h
  | empty | epsilon | symbol | cat | alt => rfl

theorem repeatedOnce_of_isRepetition_eq_false (h : r.isRepetition = false) :
    repeatedOnce r = plus r := by
  cases r with
  | star | plus => cases h
  | empty | epsilon | symbol | cat | alt => rfl

variable (alphabet : Alphabet)

/-- The tree that the reader makes of the phrase for a place. -/
def Phrases.tree (alphabet : Alphabet) (p : Phrases) : Place → Regex
  | .free => p.free.tree .compact alphabet
  | .factor => Builder.compact.term (p.factor.trees .compact alphabet).reverse
  | .operand => p.operand.tree .compact alphabet

theorem Phrases.tree_ofFactor (f : Factor) (place : Place) :
    (ofFactor f).tree alphabet place = f.tree .compact alphabet := by
  cases place with
  | free => exact (Builder.compact_expression_single _).trans (Builder.compact_term_single _)
  | factor => exact Builder.compact_term_single _
  | operand => rfl

theorem Phrases.tree_ofTerm (t : Term) (place : Place) :
    (ofTerm t).tree alphabet place =
      Builder.compact.term (t.trees .compact alphabet).reverse := by
  cases place with
  | free | operand => exact Builder.compact_expression_single _
  | factor => rfl

theorem Phrases.tree_ofExpression (x : Expression) (place : Place) :
    (ofExpression x).tree alphabet place = x.tree .compact alphabet := by
  cases place with
  | free | operand => rfl
  | factor => exact Builder.compact_term_single _

/-- No tree is printed as a blank term. -/
theorem trees_factor_ne_nil (r : Regex) : r.phrases.factor.trees .compact alphabet ≠ [] := by
  induction r with
  | cat left right ihl ihr =>
      rw [phrases, Phrases.ofTerm, Term.trees_append]
      exact List.append_ne_nil_of_right_ne_nil _ ihl
  | _ => exact List.cons_ne_nil _ _

/-- The tree that the reader makes of what is printed at a place is printed like the tree itself. -/
theorem Tight.resembles {r : Regex} (h : r.Tight) (place : Place) :
    (r.phrases.tree alphabet place).Resembles r := by
  induction r generalizing place with
  | empty =>
      have hnone : oneOf (.ofList []) = empty := by decide +kernel
      rw [phrases, Phrases.tree_ofFactor]
      exact hnone ▸ .refl _
  | epsilon =>
      have hblank : Builder.compact.expression [balanced cat epsilon []] = epsilon := by
        rw [Builder.compact_expression_single, balanced]
      rw [phrases, Phrases.tree_ofFactor]
      exact hblank ▸ .refl _
  | symbol c =>
      rw [phrases, Phrases.tree_ofFactor]
      exact .refl _
  | cat left right ihl ihr =>
      rw [phrases, Phrases.tree_ofTerm, Term.trees_append, List.reverse_append]
      have hchain := regroups_cat.balanced_append epsilon
        (List.reverse_ne_nil_iff.2 (trees_factor_ne_nil alphabet left))
        (List.reverse_ne_nil_iff.2 (trees_factor_ne_nil alphabet right))
      exact hchain.trans (regroups_cat.congr (ihl h.1 .factor) (ihr h.2 .factor))
  | alt left right ihl ihr =>
      rw [phrases, Phrases.tree_ofExpression, Expression.tree, Expression.trees_append,
        List.reverse_append]
      have hchain := regroups_alt.balanced_append epsilon
        (List.reverse_ne_nil_iff.2 (left.phrases.free.trees_ne_nil .compact alphabet))
        (List.reverse_ne_nil_iff.2 (right.phrases.free.trees_ne_nil .compact alphabet))
      exact hchain.trans (regroups_alt.congr (ihl h.1 .free) (ihr h.2 .free))
  | star inner ih =>
      have hinner := ih h.2 .operand
      rw [phrases, Phrases.tree_ofFactor]
      -- What is read under the quantifier is no repetition either, so nothing collapses.
      show (repeated (inner.phrases.tree alphabet .operand)).Resembles (star inner)
      rw [repeated_of_isRepetition_eq_false (hinner.repetition.trans h.1)]
      exact hinner.star
  | plus inner ih =>
      have hinner := ih h.2 .operand
      rw [phrases, Phrases.tree_ofFactor]
      show (repeatedOnce (inner.phrases.tree alphabet .operand)).Resembles (plus inner)
      rw [repeatedOnce_of_isRepetition_eq_false (hinner.repetition.trans h.1)]
      exact hinner.plus

/-! ## Stability -/

/-- The text of what has been parsed, unless it opens too many parentheses at once, is parsed as a
tree that is printed as the same text. So parsing and printing again changes nothing more. -/
theorem print_parse_print {pattern : List Char} {alphabet : Alphabet} {r : Regex}
    (h : parse pattern alphabet = .ok r) (hopen : mostOpen 0 r.print ≤ maxNesting) :
    ∃ r', parse r.print alphabet = .ok r' ∧ r'.print = r.print ∧
      parse r'.print alphabet = .ok r' := by
  obtain ⟨tokens, -, hread⟩ := parse_eq_ok_iff.1 h
  obtain ⟨x, -, -, -, rfl⟩ := ofTokens_eq_ok_iff.1 hread
  have hwritten := written_printAt (over_of_parse h) .free
  rw [print, hwritten.nests.mostOpen_eq] at hopen
  have hparse := hwritten.parse_eq_ok hopen
  have hprint := ((x.tight_tree alphabet).resembles alphabet .free).text .free
  exact ⟨_, hparse, hprint, (congrArg (parse · alphabet) hprint).trans hparse⟩

/-- The groups of `a(b((c+)*a))` are not printed, and the chain is balanced when read again. -/
theorem print_parse_print_regrouped :
    parse "a(b((c+)*a))".toList (.ofList ['a', 'b', 'c']) =
        .ok (cat (symbol 'a') (cat (symbol 'b') (cat (star (symbol 'c')) (symbol 'a')))) ∧
      parse "abc*a".toList (.ofList ['a', 'b', 'c']) =
        .ok (cat (cat (symbol 'a') (symbol 'b')) (cat (star (symbol 'c')) (symbol 'a'))) ∧
      (cat (cat (symbol 'a') (symbol 'b')) (cat (star (symbol 'c')) (symbol 'a'))).print =
        "abc*a".toList := by
  have hparse : parse "a(b((c+)*a))".toList (.ofList ['a', 'b', 'c']) =
      .ok (cat (symbol 'a') (cat (symbol 'b') (cat (star (symbol 'c')) (symbol 'a')))) := by
    decide +kernel
  have hprint : (cat (symbol 'a') (cat (symbol 'b') (cat (star (symbol 'c')) (symbol 'a')))).print =
      "abc*a".toList := by decide +kernel
  have hagain : parse "abc*a".toList (.ofList ['a', 'b', 'c']) =
      .ok (cat (cat (symbol 'a') (symbol 'b')) (cat (star (symbol 'c')) (symbol 'a'))) := by
    decide +kernel
  obtain ⟨r', hr', hsame, -⟩ := print_parse_print hparse (by decide +kernel)
  rw [hprint] at hr' hsame
  obtain rfl := Except.ok.inj (hr'.symm.trans hagain)
  exact ⟨hparse, hagain, hsame⟩

end Regex

end RegexEquiv
