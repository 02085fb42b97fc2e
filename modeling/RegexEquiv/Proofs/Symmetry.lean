import RegexEquiv.Proofs.Budget
import RegexEquiv.Proofs.Compare
import RegexEquiv.Proofs.Search.Mirror

/-!
# Comparing in the other order

When two automata change places, the pairs of their states are swapped and nothing else happens: the
searches of the pairs mirror each other (`Dfa.findWitness_swap`), so they give the same witness or
use up the same budget at the same moment. A witness of a difference is accepted by one side only,
so that side is the other one afterwards (`Dfa.verdict_swap`). And if two patterns parse, only their
budget can keep them from being compiled, so it does not matter which is compiled first:
`equivalence_swap`.
-/

namespace RegexEquiv

/-- The pair with its sides exchanged. -/
def Pair.swap (p : Pair) : Pair := ⟨p.right, p.left⟩

theorem Pair.swap_injective : Function.Injective swap := by
  intro p q h
  obtain ⟨hright, hleft⟩ := Pair.mk.inj h
  cases p
  cases q
  rw [Pair.mk.injEq]
  exact ⟨hleft, hright⟩

variable {alphabet : Alphabet} {limits : Limits}

namespace Dfa

variable {a b : Dfa}

/-- The pairs of two automata mirror those of the automata in the other order. -/
theorem pairGraph_mirrors {ε : Type} {guard guard' : Guard Pair Char ε}
    (hab : a.alphabet = b.alphabet)
    (hguard : ∀ count v, guard' count (v.translate Pair.swap) = guard count v) :
    (a.pairGraph b).Mirrors Pair.swap guard (b.pairGraph a) guard' where
  injective := Pair.swap_injective
  edges p := by
    have hpairs : List.zipWith Pair.mk (b.row p.right) (a.row p.left) =
        (List.zipWith Pair.mk (a.row p.left) (b.row p.right)).map Pair.swap := by
      rw [List.map_zipWith, List.zipWith_comm]
      rfl
    show b.alphabet.toList.zip (List.zipWith Pair.mk (b.row p.right) (a.row p.left)) = _
    rw [hpairs, ← hab, List.zip_map_right]
    rfl
  bound := Nat.mul_comm b.size a.size
  guard := hguard

/-- Searching for a word in the other order is searching for the same word. -/
theorem findWitness_swap (hab : a.alphabet = b.alphabet) (condition : Bool → Bool → Bool) :
    b.findWitness a (fun x y => condition y x) limits = a.findWitness b condition limits := by
  have hmirrors : (a.pairGraph b).Mirrors Pair.swap (a.witnessGuard b condition limits)
      (b.pairGraph a) (b.witnessGuard a (fun x y => condition y x) limits) :=
    pairGraph_mirrors hab fun _ _ => rfl
  have halike : EndAlike Pair.swap
      ((a.pairGraph b).search (a.witnessGuard b condition limits) [a.startPair b])
      ((b.pairGraph a).search (b.witnessGuard a (fun x y => condition y x) limits)
        [b.startPair a]) := Graph.search_mirrors hmirrors [a.startPair b]
  unfold findWitness
  generalize (a.pairGraph b).search _ _ = search at halike ⊢
  generalize (b.pairGraph a).search _ _ = mirrored at halike ⊢
  cases halike with
  | found _ => rfl
  | stopped reason => rfl

/-- A witness of the difference of two total automata is accepted by exactly one of them, whatever
the budget. -/
theorem accepts_witness_iff (ha : a.isTotal = true) (hb : b.isTotal = true)
    (hab : a.alphabet = b.alphabet) {w : Word}
    (h : a.findWitness b Combination.symmetricDifference.accepts limits = .ok (some w)) :
    a.accepts w = true ↔ ¬ b.accepts w = true := by
  obtain ⟨answer, hanswer, hleast⟩ := exists_findWitness
    Combination.symmetricDifference.accepts ha hb hab (show Limits.productStates {} = none from rfl)
  have hunlimited := (findWitness_agrees limits.le_unlimited a b _).eq_ok h
  obtain rfl := Except.ok.inj (hunlimited.symm.trans hanswer)
  have hdiffers := (meets_symmetricDifference_iff hab).1 hleast.1
  tauto

/-- The comparison of two total automata in the other order gives the verdict with the sides
exchanged, or the same error. -/
theorem verdict_swap (ha : a.isTotal = true) (hb : b.isTotal = true)
    (hab : a.alphabet = b.alphabet) :
    b.verdict a limits = (a.verdict b limits).map Verdict.swap := by
  have hsame : b.findWitness a Combination.symmetricDifference.accepts limits =
      a.findWitness b Combination.symmetricDifference.accepts limits := by
    rw [← findWitness_swap hab]
    congr 1
    funext x y
    exact bne_comm
  unfold verdict
  rw [hsame]
  cases hwitness : a.findWitness b Combination.symmetricDifference.accepts limits with
  | error e => rfl
  | ok answer =>
      cases answer with
      | none => rfl
      | some w =>
          have hside := accepts_witness_iff ha hb hab hwitness
          show Except.ok (Verdict.different w (if b.accepts w then .left else .right)) =
            .ok (.different w (if a.accepts w then .left else .right : Side).other)
          by_cases hacc : b.accepts w = true
          · rw [if_pos hacc, if_neg fun h => hside.1 h hacc]
            rfl
          · rw [if_neg hacc, if_pos (hside.2 hacc)]
            rfl

end Dfa

/-! ## Two patterns -/

/-- If a pattern that parses does not compile, its budget is used up. -/
theorem exhausted_of_compile {pattern : List Char} {r : Regex} {e : Error}
    (hparse : Regex.parse pattern alphabet = .ok r)
    (he : compile pattern alphabet limits = .error e) :
    Stage.determinization.Exhausted limits e := by
  obtain ⟨d, hd, -⟩ := exists_compile hparse (show Limits.dfaStates {} = none from rfl)
  exact (compile_agrees limits.le_unlimited pattern alphabet).of_error hd he

/-- Comparing two patterns that parse in the other order gives the verdict with the sides exchanged:
that they are equivalent, or the same witness for the other side. If a budget does not suffice, the
error is the same. -/
theorem equivalence_swap {a b : List Char} {left right : Regex}
    (ha : Regex.parse a alphabet = .ok left) (hb : Regex.parse b alphabet = .ok right) :
    equivalence b a alphabet limits = (equivalence a b alphabet limits).map Verdict.swap := by
  unfold equivalence
  cases hleft : compile a alphabet limits with
  | error e =>
      cases hright : compile b alphabet limits with
      | error e' =>
          -- Both constructions report the same budget.
          rw [(exhausted_of_compile ha hleft).unique (exhausted_of_compile hb hright)]
          rfl
      | ok right => rfl
  | ok left =>
      cases hright : compile b alphabet limits with
      | error e => rfl
      | ok right =>
          have hd := recognizes_of_compile ha hleft
          have he := recognizes_of_compile hb hright
          exact Dfa.verdict_swap hd.total he.total (hd.alphabet_eq.trans he.alphabet_eq.symm)

open Regex in
/-- Rows of `a` before rows of `b` lack the word `ba`, whichever side they stand on, and to find
that out takes four pairs of states. -/
theorem equivalence_swap_rows :
    parse "(a|b)*".toList (.ofList ['a', 'b']) = .ok (star (alt (symbol 'a') (symbol 'b'))) ∧
      parse "a*b*".toList (.ofList ['a', 'b']) = .ok (cat (star (symbol 'a')) (star (symbol 'b'))) ∧
      equivalence "a*b*".toList "(a|b)*".toList (.ofList ['a', 'b']) ⟨none, some 4⟩ =
        .ok (.different ['b', 'a'] .right) ∧
      equivalence "a*b*".toList "(a|b)*".toList (.ofList ['a', 'b']) ⟨none, some 3⟩ =
        .error (.overBudget .productSearch 3) := by
  have hany : parse "(a|b)*".toList (.ofList ['a', 'b']) =
      .ok (star (alt (symbol 'a') (symbol 'b'))) := by decide +kernel
  have hrows : parse "a*b*".toList (.ofList ['a', 'b']) =
      .ok (cat (star (symbol 'a')) (star (symbol 'b'))) := by decide +kernel
  have hfour : equivalence "(a|b)*".toList "a*b*".toList (.ofList ['a', 'b']) ⟨none, some 4⟩ =
      .ok (.different ['b', 'a'] .left) := by decide +kernel
  have hthree : equivalence "(a|b)*".toList "a*b*".toList (.ofList ['a', 'b']) ⟨none, some 3⟩ =
      .error (.overBudget .productSearch 3) := by decide +kernel
  refine ⟨hany, hrows, ?_, ?_⟩
  · rw [equivalence_swap hany hrows, hfour]
    rfl
  · rw [equivalence_swap hany hrows, hthree]
    rfl

end RegexEquiv
