import RegexEquiv.Proofs.Budget
import RegexEquiv.Proofs.Dfa.Complement
import RegexEquiv.Proofs.Dfa.Empty
import RegexEquiv.Proofs.Dfa.Product
import RegexEquiv.Proofs.Dfa.Verdict
import RegexEquiv.Proofs.Search.Count

/-!
# Searching the pairs or building the product

Whether two automata answer a word in a given way can be found out without a product automaton, by
the search of the pairs that stops early, or with it, by asking whether the product accepts
anything. Both go through the same pairs in the same order, so a budget that suffices for the
product suffices for the search (`Dfa.exists_findWitness_of_product`), and both come to the same:
`Dfa.searches_match_products`.
-/

namespace RegexEquiv.Dfa

variable {a b p : Dfa} {op : Combination} {limits : Limits}

section Agreement

variable (ha : a.isTotal = true) (hb : b.isTotal = true) (hab : a.alphabet = b.alphabet)
include ha hb hab

/-- Within a budget in which the product can be built, the search for a witness does not fail. -/
theorem findWitness_eq_ok_of_product (hp : a.product b op limits = .ok p) :
    ∃ answer, a.findWitness b op.accepts limits = .ok answer := by
  obtain ⟨found, hfound, -⟩ := product_eq_ok_iff.1 hp
  have hfits := pairGraph_fits ha hb hab
  cases hanswer : a.findWitness b op.accepts limits with
  | ok answer => exact ⟨answer, rfl⟩
  | error e =>
      -- The search for all pairs has been allowed every number that this one asks for.
      obtain ⟨count, hcount, v, hrefused⟩ :=
        Graph.search_refused_lt hfits (findWitness_eq_error_iff.1 hanswer) fun w q hq =>
          (Graph.mem_nodes_of_search hfits hfound).2 ⟨w, hq⟩
      rw [Discovery.nodes_length] at hcount
      obtain ⟨-, hallow⟩ := Graph.search_allowed hfits hfound hcount
      rw [witnessGuard_eq_failed_iff, hallow] at hrefused
      cases hrefused

/-- Within a budget in which the product can be built, the search for a witness gives the least word
that the product accepts. -/
theorem exists_findWitness_of_product (hp : a.product b op limits = .ok p) :
    ∃ answer, a.findWitness b op.accepts limits = .ok answer ∧
      Word.LeastIfAny (fun w => p.accepts w = true) answer := by
  obtain ⟨answer, hanswer⟩ := findWitness_eq_ok_of_product ha hb hab hp
  obtain ⟨answer', hanswer', hleast⟩ := exists_findWitness op.accepts ha hb hab
    (show Limits.productStates {} = none from rfl)
  have hunlimited := (findWitness_agrees limits.le_unlimited a b op.accepts).eq_ok hanswer
  obtain rfl := Except.ok.inj (hunlimited.symm.trans hanswer')
  exact ⟨answer, hanswer, hleast.congr fun w => (accepts_product ha hb hab hp).symm⟩

/-- The product of an automaton and the complement of another accepts what the first accepts and the
other does not. -/
theorem accepts_product_complement (hp : a.product b.complement .intersection limits = .ok p)
    {w : Word} : p.accepts w = true ↔ a.accepts w = true ∧ ¬ b.accepts w = true := by
  have hb' : b.complement.isTotal = true := (isTotal_complement b).trans hb
  rw [accepts_product ha hb' hab hp]
  show Word.Over a.alphabet w ∧ (a.accepts w && b.complement.accepts w) = true ↔ _
  rw [Bool.and_eq_true, accepts_complement hb, ← hab]
  constructor
  · intro hw
    exact ⟨hw.2.1, hw.2.2.2⟩
  · intro hw
    have hover := over_of_accepts hw.1
    exact ⟨hover, hw.1, hover, hw.2⟩

/-- The search for a word gives none exactly when a product that accepts the same words is empty. -/
theorem eq_none_iff_isEmpty_product {q : Word → Prop} {answer : Option Word}
    (hp : a.product b op limits = .ok p) (haccepts : ∀ w, p.accepts w = true ↔ q w)
    (hleast : Word.LeastIfAny q answer) : answer = none ↔ p.isEmpty = true := by
  rw [hleast.eq_none_iff, isEmpty_iff (isTotal_product ha hb hab hp)]
  exact forall_congr' fun w => not_congr (haccepts w).symm

/-- Within a budget in which the product of two total automata can be built, the search for a word
with the same combination of answers ends. It gives none exactly when the product is empty, and
otherwise the least word that the product accepts. Without a budget, one automaton is included in
another exactly when its product with the complement of the other is empty, and two automata are
equivalent exactly when the product of their symmetric difference is empty. -/
theorem searches_match_products :
    (∀ op limits p, a.product b op limits = .ok p →
      ∃ answer, a.findWitness b op.accepts limits = .ok answer ∧
        (answer = none ↔ p.isEmpty = true) ∧
        ∀ w, answer = some w ↔ Word.Least (fun u => p.accepts u = true) w) ∧
    (∃ answer p, a.inclusionWitness b {} = .ok answer ∧
      a.product b.complement .intersection {} = .ok p ∧
      (answer = none ↔ p.isEmpty = true)) ∧
    ∃ v p, a.verdict b {} = .ok v ∧ a.product b .symmetricDifference {} = .ok p ∧
      (v = .equivalent ↔ p.isEmpty = true) := by
  have hunlimited : Limits.productStates {} = none := rfl
  refine ⟨fun op limits p hp => ?_, ?_, ?_⟩
  · obtain ⟨answer, hanswer, hleast⟩ := exists_findWitness_of_product ha hb hab hp
    exact ⟨answer, hanswer, eq_none_iff_isEmpty_product ha hb hab hp (fun _ => .rfl) hleast,
      fun _ => hleast.eq_some_iff⟩
  · have hb' : b.complement.isTotal = true := (isTotal_complement b).trans hb
    obtain ⟨answer, hanswer, hleast⟩ := exists_inclusionWitness ha hb hab hunlimited
    obtain ⟨p, hp⟩ := exists_product .intersection ha hb' hab hunlimited
    exact ⟨answer, p, hanswer, hp, eq_none_iff_isEmpty_product ha hb' hab hp
      (fun _ => accepts_product_complement ha hb hab hp) hleast⟩
  · obtain ⟨v, hv, hdecides⟩ := exists_verdict ha hb hab hunlimited
    obtain ⟨p, hp⟩ := exists_product .symmetricDifference ha hb hab hunlimited
    refine ⟨v, p, hv, hp, ?_⟩
    rw [hdecides.eq_equivalent_iff, isEmpty_iff (isTotal_product ha hb hab hp)]
    refine forall_congr' fun w => ?_
    rw [accepts_product ha hb hab hp, meets_symmetricDifference_iff hab, not_not]

end Agreement

/-- The words with an odd number of `a` that end with `b` have a product of four pairs. Within four
pairs, the search gives the least of them. -/
theorem searches_match_products_oddCount_endsWithB :
    oddCount.isTotal = true ∧ endsWithB.isTotal = true ∧ oddCount.alphabet = endsWithB.alphabet ∧
      ∃ p, oddCount.product endsWithB .intersection ⟨none, some 4⟩ = .ok p ∧
        oddCount.findWitness endsWithB Combination.intersection.accepts ⟨none, some 4⟩ =
          .ok (some ['a', 'b']) ∧
        p.isEmpty = false ∧ Word.Least (fun u => p.accepts u = true) ['a', 'b'] := by
  have hodd : oddCount.isTotal = true := by decide +kernel
  have hends : endsWithB.isTotal = true := by decide +kernel
  have hp : oddCount.product endsWithB .intersection ⟨none, some 4⟩ =
      .ok ⟨.ofList ['a', 'b'], 0, #[⟨false, [1, 2]⟩, ⟨false, [0, 3]⟩, ⟨false, [1, 2]⟩,
        ⟨true, [0, 3]⟩]⟩ := by decide +kernel
  have hrun : oddCount.findWitness endsWithB Combination.intersection.accepts ⟨none, some 4⟩ =
      .ok (some ['a', 'b']) := by decide +kernel
  obtain ⟨answer, hanswer, hnone, hsome⟩ :=
    (searches_match_products hodd hends rfl).1 _ _ _ hp
  obtain rfl := Except.ok.inj (hanswer.symm.trans hrun)
  refine ⟨hodd, hends, rfl, _, hp, hrun, Bool.eq_false_iff.2 fun hempty => ?_, (hsome _).1 rfl⟩
  cases hnone.2 hempty

end RegexEquiv.Dfa
