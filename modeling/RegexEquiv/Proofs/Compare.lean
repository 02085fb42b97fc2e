import RegexEquiv.Compare
import RegexEquiv.Proofs.Dfa.Subset
import RegexEquiv.Proofs.Dfa.Verdict
import RegexEquiv.Proofs.Nfa.Thompson
import RegexEquiv.Proofs.Regex.Symbols

/-!
# What a comparison of two patterns decides

A pattern that parses compiles to a total automaton for the words of its expression
(`recognizes_of_compile`), and without a budget it does compile (`exists_compile`). So comparing two
patterns that parse decides whether their expressions have the same words (`equivalence_decides`),
and the test of inclusion whether all words of the first are words of the second
(`inclusion_decides`).
-/

namespace RegexEquiv

/-- `d.Recognizes alphabet r` says that `d` is a total automaton over an alphabet that accepts the
words of an expression and no others. -/
structure Dfa.Recognizes (d : Dfa) (alphabet : Alphabet) (r : Regex) : Prop where
  alphabet_eq : d.alphabet = alphabet
  total : d.isTotal = true
  accepts_iff : ∀ w, d.accepts w = true ↔ r.Matches w

theorem Dfa.Recognizes.language_eq {d : Dfa} {alphabet : Alphabet} {r : Regex}
    (h : d.Recognizes alphabet r) : (fun w => d.accepts w = true) = r.Matches :=
  funext fun w => propext (h.accepts_iff w)

variable {alphabet : Alphabet} {limits : Limits}

/-! ## Determinising the automaton of an expression -/

/-- Determinising over an alphabet, which may lack symbols of the expression, leaves exactly the
words over the alphabet. -/
theorem Dfa.accepts_ofNfa_ofRegex {r : Regex} {d : Dfa}
    (hd : Dfa.ofNfa (Nfa.ofRegex r) alphabet limits = .ok d) (w : Word) :
    d.accepts w = true ↔ Word.Over alphabet w ∧ (Nfa.ofRegex r).accepts w = true :=
  Dfa.accepts_ofNfa (Nfa.closed_ofRegex r) hd

/-- Over `a` and `c` the automaton of `ab*` has no edge for `b`: it keeps the word `a` and loses the
word `ab`. Its three states, one of them the sink, are within the budget. -/
theorem Dfa.accepts_ofNfa_ofRegex_missing :
    ∃ d, Dfa.ofNfa (Nfa.ofRegex (.cat (.symbol 'a') (.star (.symbol 'b')))) (.ofList ['a', 'c'])
        ⟨some 3, none⟩ = .ok d ∧
      d.accepts ['a'] = true ∧ ¬ d.accepts ['a', 'b'] = true := by
  have hd : Dfa.ofNfa (Nfa.ofRegex (.cat (.symbol 'a') (.star (.symbol 'b'))))
      (.ofList ['a', 'c']) ⟨some 3, none⟩ =
      .ok ⟨.ofList ['a', 'c'], 0, #[⟨false, [1, 2]⟩, ⟨true, [2, 2]⟩, ⟨false, [2, 2]⟩]⟩ := by
    decide +kernel
  have ha : Word.Over (.ofList ['a', 'c']) ['a'] := List.forall_mem_singleton.2 (by decide)
  refine ⟨_, hd, (accepts_ofNfa_ofRegex hd ['a']).2 ⟨ha, by decide +kernel⟩, fun h => ?_⟩
  have hb := ((accepts_ofNfa_ofRegex hd ['a', 'b']).1 h).1 'b' (by decide)
  exact absurd hb (by decide)

/-! ## Compiling a pattern -/

section Compile

variable {pattern : List Char} {r : Regex} {d : Dfa}

/-- A pattern that parses compiles to what its expression compiles to. -/
theorem compile_eq_ok_iff (hparse : Regex.parse pattern alphabet = .ok r) :
    compile pattern alphabet limits = .ok d ↔
      Dfa.ofNfa (Nfa.ofRegex r) alphabet limits = .ok d := by
  unfold compile Compiled.ofPattern
  rw [hparse]
  show Except.map _ (Dfa.ofNfa (Nfa.ofRegex r) alphabet limits >>= fun dfa => _) = _ ↔ _
  cases Dfa.ofNfa (Nfa.ofRegex r) alphabet limits <;> rfl

/-- A compiled pattern accepts the words of its expression. -/
theorem recognizes_of_compile (hparse : Regex.parse pattern alphabet = .ok r)
    (hd : compile pattern alphabet limits = .ok d) : d.Recognizes alphabet r := by
  have hclosed := Nfa.closed_ofRegex r
  have hofNfa := (compile_eq_ok_iff hparse).1 hd
  refine ⟨Dfa.alphabet_ofNfa hofNfa, Dfa.isTotal_ofNfa hclosed hofNfa, fun w => ?_⟩
  rw [Dfa.accepts_ofNfa hclosed hofNfa, Nfa.accepts_iff_leads hclosed, Nfa.leads_ofRegex_iff]
  -- The words of the expression are over the alphabet, so the alphabet takes none away.
  exact and_iff_right_of_imp (Regex.Matches.over (Regex.over_of_parse hparse))

/-- Without a budget a pattern that parses does compile. -/
theorem exists_compile (hparse : Regex.parse pattern alphabet = .ok r)
    (hlimits : limits.dfaStates = none) :
    ∃ d, compile pattern alphabet limits = .ok d ∧ d.Recognizes alphabet r := by
  obtain ⟨d, hofNfa⟩ := Dfa.exists_ofNfa alphabet (Nfa.closed_ofRegex r) hlimits
  have hd := (compile_eq_ok_iff hparse).2 hofNfa
  exact ⟨d, hd, recognizes_of_compile hparse hd⟩

end Compile

/-! ## Comparing two patterns -/

variable {a b : List Char} {left right : Regex}

/-- Without budgets, comparing two patterns that parse ends with the right verdict about the words
of their expressions. -/
theorem exists_equivalence (ha : Regex.parse a alphabet = .ok left)
    (hb : Regex.parse b alphabet = .ok right) :
    ∃ v, equivalence a b alphabet {} = .ok v ∧ v.Decides left.Matches right.Matches := by
  obtain ⟨d, hd, hleft⟩ := exists_compile ha (show Limits.dfaStates {} = none from rfl)
  obtain ⟨e, he, hright⟩ := exists_compile hb (show Limits.dfaStates {} = none from rfl)
  obtain ⟨v, hv, hdecides⟩ := Dfa.exists_verdict hleft.total hright.total
    (hleft.alphabet_eq.trans hright.alphabet_eq.symm)
    (show Limits.productStates {} = none from rfl)
  rw [hleft.language_eq, hright.language_eq] at hdecides
  refine ⟨v, ?_, hdecides⟩
  exact Except.bind_eq_ok_iff.2 ⟨d, hd, Except.bind_eq_ok_iff.2 ⟨e, he, hv⟩⟩

/-- Without budgets, testing inclusion of two patterns that parse ends with the least word of the
first expression that is not one of the second. -/
theorem exists_inclusion (ha : Regex.parse a alphabet = .ok left)
    (hb : Regex.parse b alphabet = .ok right) :
    ∃ answer, inclusion a b alphabet {} = .ok answer ∧
      Word.LeastIfAny (fun w => left.Matches w ∧ ¬ right.Matches w) answer := by
  obtain ⟨d, hd, hleft⟩ := exists_compile ha (show Limits.dfaStates {} = none from rfl)
  obtain ⟨e, he, hright⟩ := exists_compile hb (show Limits.dfaStates {} = none from rfl)
  obtain ⟨answer, hanswer, hleast⟩ := Dfa.exists_inclusionWitness hleft.total hright.total
    (hleft.alphabet_eq.trans hright.alphabet_eq.symm)
    (show Limits.productStates {} = none from rfl)
  refine ⟨answer, ?_, hleast.congr fun w => ?_⟩
  · exact Except.bind_eq_ok_iff.2 ⟨d, hd, Except.bind_eq_ok_iff.2 ⟨e, he, hanswer⟩⟩
  · rw [hleft.accepts_iff, hright.accepts_iff]

/-- Patterns that parse are equivalent exactly when their expressions have the same words. -/
theorem areEquivalent_eq_true_iff (ha : Regex.parse a alphabet = .ok left)
    (hb : Regex.parse b alphabet = .ok right) :
    areEquivalent a b alphabet = .ok true ↔ ∀ w, left.Matches w ↔ right.Matches w := by
  obtain ⟨v, hv, hdecides⟩ := exists_equivalence ha hb
  unfold areEquivalent
  rw [hv, ← hdecides.eq_equivalent_iff]
  cases v <;> simp [Except.map, Verdict.isEquivalent]

/-- A pattern that parses is included in another exactly when all words of its expression are words
of the other. -/
theorem isIncluded_eq_true_iff (ha : Regex.parse a alphabet = .ok left)
    (hb : Regex.parse b alphabet = .ok right) :
    isIncluded a b alphabet = .ok true ↔ ∀ w, left.Matches w → right.Matches w := by
  obtain ⟨answer, hanswer, hleast⟩ := exists_inclusion ha hb
  unfold isIncluded
  rw [hanswer, Except.map, Except.ok.injEq, Option.isNone_iff_eq_none, hleast.eq_none_iff]
  simp only [not_and, not_not]

/-- The test of inclusion gives a word exactly when it is the least of the first expression that is
not one of the second. -/
theorem inclusion_eq_some_iff (ha : Regex.parse a alphabet = .ok left)
    (hb : Regex.parse b alphabet = .ok right) {w : Word} :
    inclusion a b alphabet {} = .ok (some w) ↔
      Word.Least (fun u => left.Matches u ∧ ¬ right.Matches u) w := by
  obtain ⟨answer, hanswer, hleast⟩ := exists_inclusion ha hb
  rw [hanswer, Except.ok.injEq, hleast.eq_some_iff]

/-- Two patterns that parse are compared without an error. The verdict is that of equality exactly
when their expressions have the same words. Otherwise it gives the least word of one expression only
and the side of that expression. -/
theorem equivalence_decides (ha : Regex.parse a alphabet = .ok left)
    (hb : Regex.parse b alphabet = .ok right) :
    ∃ v, equivalence a b alphabet {} = .ok v ∧
      (v = .equivalent ↔ ∀ w, left.Matches w ↔ right.Matches w) ∧
      (∀ w side, v = .different w side ↔
        Word.Least (fun u => ¬ (left.Matches u ↔ right.Matches u)) w ∧
          (side = .left ↔ left.Matches w) ∧ (side = .right ↔ right.Matches w)) ∧
      areEquivalent a b alphabet = .ok (decide (v = .equivalent)) := by
  obtain ⟨v, hv, hdecides⟩ := exists_equivalence ha hb
  refine ⟨v, hv, hdecides.eq_equivalent_iff, fun w side => hdecides.eq_different_iff, ?_⟩
  unfold areEquivalent
  rw [hv]
  cases v <;> rfl

open Regex in
/-- The least word over `a` and `b` that is not a row of `a` before a row of `b` is `ba`. -/
theorem equivalence_decides_rows :
    parse "(a|b)*".toList (.ofList ['a', 'b']) = .ok (star (alt (symbol 'a') (symbol 'b'))) ∧
      parse "a*b*".toList (.ofList ['a', 'b']) = .ok (cat (star (symbol 'a')) (star (symbol 'b'))) ∧
      equivalence "(a|b)*".toList "a*b*".toList (.ofList ['a', 'b']) {} =
        .ok (.different ['b', 'a'] .left) ∧
      Word.Least (fun u => ¬ ((star (alt (symbol 'a') (symbol 'b'))).Matches u ↔
        (cat (star (symbol 'a')) (star (symbol 'b'))).Matches u)) ['b', 'a'] := by
  have hany : parse "(a|b)*".toList (.ofList ['a', 'b']) =
      .ok (star (alt (symbol 'a') (symbol 'b'))) := by decide +kernel
  have hrows : parse "a*b*".toList (.ofList ['a', 'b']) =
      .ok (cat (star (symbol 'a')) (star (symbol 'b'))) := by decide +kernel
  have hrun : equivalence "(a|b)*".toList "a*b*".toList (.ofList ['a', 'b']) {} =
      .ok (.different ['b', 'a'] .left) := by decide +kernel
  obtain ⟨v, hv, -, hdifferent, -⟩ := equivalence_decides hany hrows
  obtain rfl := Except.ok.inj (hv.symm.trans hrun)
  exact ⟨hany, hrows, hrun, ((hdifferent _ _).1 rfl).1⟩

/-- Two patterns that parse are tested for inclusion without an error, and the test gives the least
word of the first expression that is not one of the second, if there is one. Patterns are equivalent
exactly when each is included in the other. If they are not, the comparison gives the smaller of the
words that the two tests give. -/
theorem inclusion_decides (ha : Regex.parse a alphabet = .ok left)
    (hb : Regex.parse b alphabet = .ok right) :
    (∃ answer, inclusion a b alphabet {} = .ok answer ∧
      (answer = none ↔ ∀ w, left.Matches w → right.Matches w) ∧
      (∀ w, answer = some w ↔ Word.Least (fun u => left.Matches u ∧ ¬ right.Matches u) w) ∧
      isIncluded a b alphabet = .ok answer.isNone) ∧
    (areEquivalent a b alphabet = .ok true ↔
      isIncluded a b alphabet = .ok true ∧ isIncluded b a alphabet = .ok true) ∧
    (areEquivalent a b alphabet ≠ .ok true → ∃ w side,
      equivalence a b alphabet {} = .ok (.different w side) ∧
      Word.Least (fun u => inclusion a b alphabet {} = .ok (some u) ∨
        inclusion b a alphabet {} = .ok (some u)) w) := by
  refine ⟨?_, ?_, fun hne => ?_⟩
  · obtain ⟨answer, hanswer, hleast⟩ := exists_inclusion ha hb
    refine ⟨answer, hanswer, ?_, fun w => hleast.eq_some_iff, ?_⟩
    · rw [hleast.eq_none_iff]
      simp only [not_and, not_not]
    · unfold isIncluded
      rw [hanswer]
      rfl
  · rw [areEquivalent_eq_true_iff ha hb, isIncluded_eq_true_iff ha hb,
      isIncluded_eq_true_iff hb ha]
    simp only [iff_iff_implies_and_implies, forall_and]
  · obtain ⟨v, hv, hdecides⟩ := exists_equivalence ha hb
    cases v with
    | equivalent => exact absurd ((areEquivalent_eq_true_iff ha hb).2 hdecides) hne
    | different w side =>
        refine ⟨w, side, hv, ?_⟩
        simp only [inclusion_eq_some_iff ha hb, inclusion_eq_some_iff hb ha]
        -- Two expressions differ on a word when one has it and the other has not.
        refine Word.Least.of_or (hdecides.1.narrow ?_ fun u hu => ?_)
        · have hw := hdecides.1.1
          tauto
        · tauto

open Regex in
/-- A row of `a` before a row of `b` is a word over `a` and `b`, but not the other way round. -/
theorem inclusion_decides_rows :
    parse "a*b*".toList (.ofList ['a', 'b']) = .ok (cat (star (symbol 'a')) (star (symbol 'b'))) ∧
      parse "(a|b)*".toList (.ofList ['a', 'b']) = .ok (star (alt (symbol 'a') (symbol 'b'))) ∧
      isIncluded "a*b*".toList "(a|b)*".toList (.ofList ['a', 'b']) = .ok true ∧
      (∀ w, (cat (star (symbol 'a')) (star (symbol 'b'))).Matches w →
        (star (alt (symbol 'a') (symbol 'b'))).Matches w) ∧
      isIncluded "(a|b)*".toList "a*b*".toList (.ofList ['a', 'b']) ≠ .ok true := by
  have hrows : parse "a*b*".toList (.ofList ['a', 'b']) =
      .ok (cat (star (symbol 'a')) (star (symbol 'b'))) := by decide +kernel
  have hany : parse "(a|b)*".toList (.ofList ['a', 'b']) =
      .ok (star (alt (symbol 'a') (symbol 'b'))) := by decide +kernel
  have hrun : inclusion "a*b*".toList "(a|b)*".toList (.ofList ['a', 'b']) {} = .ok none := by
    decide +kernel
  have hdifferent : areEquivalent "a*b*".toList "(a|b)*".toList (.ofList ['a', 'b']) =
      .ok false := by decide +kernel
  obtain ⟨⟨answer, hanswer, hnone, -, hincluded⟩, hboth, -⟩ := inclusion_decides hrows hany
  obtain rfl := Except.ok.inj (hanswer.symm.trans hrun)
  refine ⟨hrows, hany, hincluded, hnone.1 rfl, fun hback => ?_⟩
  have hequivalent := hboth.2 ⟨hincluded, hback⟩
  rw [hdifferent] at hequivalent
  cases hequivalent

end RegexEquiv
