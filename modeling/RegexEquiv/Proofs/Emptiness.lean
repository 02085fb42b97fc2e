import RegexEquiv.Proofs.Compare
import RegexEquiv.Proofs.Dfa.Empty
import RegexEquiv.Proofs.Nfa.Useful
import RegexEquiv.Proofs.Search.Exhaust

/-!
# Empty languages

Whether an automaton accepts anything is decided by a search along its moves, which does not look at
words. For the automaton of an expression the search finds the accepting state exactly when the
expression has a word (`Nfa.isEmpty_ofRegex_iff`). Determinising over an alphabet leaves the words
over the alphabet, so the determinised automaton can be empty although the expression is not
(`Dfa.isEmpty_ofNfa_ofRegex_iff`). `emptiness_decides` says what the searches decide, and that a
search through a total automaton comes to an end because nothing is left to take up.
-/

namespace RegexEquiv

/-- The automaton of an expression is empty exactly when the expression has no word. -/
theorem Nfa.isEmpty_ofRegex_iff (r : Regex) :
    (ofRegex r).isEmpty = true ↔ ∀ w, ¬ r.Matches w := by
  rw [isEmpty, Bool.not_eq_true', ← Bool.not_eq_true, SortedSet.contains, decide_eq_true_iff,
    mem_reachable (closed_ofRegex r), Reaches, not_exists]
  exact forall_congr' fun _ => not_congr leads_ofRegex_iff

/-- The automaton of an expression over an alphabet is empty exactly when every word of the
expression has a symbol outside the alphabet. -/
theorem Dfa.isEmpty_ofNfa_ofRegex_iff {r : Regex} {alphabet : Alphabet} {limits : Limits} {d : Dfa}
    (hd : ofNfa (Nfa.ofRegex r) alphabet limits = .ok d) :
    d.isEmpty = true ↔ ∀ w, r.Matches w → ¬ Word.Over alphabet w := by
  rw [isEmpty_iff (isTotal_ofNfa (Nfa.closed_ofRegex r) hd)]
  refine forall_congr' fun w => ?_
  rw [accepts_ofNfa_ofRegex hd, Nfa.accepts_ofRegex_iff, not_and']

/-- Emptiness is decided exactly: of the automaton of an expression by the words of the expression,
of a total automaton by the words that it accepts, and of the automaton of an expression over an
alphabet, which exists, by the words of the expression over that alphabet. -/
theorem emptiness_decides :
    (∀ r : Regex, (Nfa.ofRegex r).isEmpty = true ↔ ∀ w, ¬ r.Matches w) ∧
    (∀ d : Dfa, d.isTotal = true →
      (∃ first, first.nodes = [d.start] ∧
        d.moveGraph.Exhausts first 0 (d.moveGraph.reach [d.start])) ∧
      (d.isEmpty = true ↔ ∀ w, ¬ d.accepts w = true)) ∧
    ∀ (r : Regex) (alphabet : Alphabet),
      (∃ d, Dfa.ofNfa (Nfa.ofRegex r) alphabet {} = .ok d) ∧
      ∀ limits d, Dfa.ofNfa (Nfa.ofRegex r) alphabet limits = .ok d →
        (d.isEmpty = true ↔ ∀ w, r.Matches w → ¬ Word.Over alphabet w) := by
  refine ⟨Nfa.isEmpty_ofRegex_iff, fun d hd => ?_, fun r alphabet => ?_⟩
  · exact ⟨Graph.reach_exhausts (Dfa.moveGraph_fits hd), Dfa.isEmpty_iff hd⟩
  · exact ⟨Dfa.exists_ofNfa alphabet (Nfa.closed_ofRegex r) rfl,
      fun _ _ hd => Dfa.isEmpty_ofNfa_ofRegex_iff hd⟩

/-- The words of `a[]|b+` are rows of `b`, so its automaton is not empty, but over `a` and `c` it
is. -/
theorem emptiness_decides_missing :
    ¬ (Nfa.ofRegex (.alt (.cat (.symbol 'a') .empty) (.plus (.symbol 'b')))).isEmpty = true ∧
      ∃ d, Dfa.ofNfa (Nfa.ofRegex (.alt (.cat (.symbol 'a') .empty) (.plus (.symbol 'b'))))
          (.ofList ['a', 'c']) {} = .ok d ∧
        d.isTotal = true ∧ d.isEmpty = true ∧ (∀ w, ¬ d.accepts w = true) ∧
        ∀ w, (Regex.alt (.cat (.symbol 'a') .empty) (.plus (.symbol 'b'))).Matches w →
          ¬ Word.Over (.ofList ['a', 'c']) w := by
  obtain ⟨hnfa, htotal, hdfa⟩ := emptiness_decides
  have hd : Dfa.ofNfa (Nfa.ofRegex (.alt (.cat (.symbol 'a') .empty) (.plus (.symbol 'b'))))
      (.ofList ['a', 'c']) {} =
      .ok ⟨.ofList ['a', 'c'], 0, #[⟨false, [1, 2]⟩, ⟨false, [2, 2]⟩, ⟨false, [2, 2]⟩]⟩ := by
    decide +kernel
  have hb : (Regex.alt (.cat (.symbol 'a') .empty) (.plus (.symbol 'b'))).Matches ['b'] :=
    .altRight (.plus (.symbol 'b') .starNil)
  refine ⟨fun hempty => (hnfa _).1 hempty _ hb, _, hd, ?_⟩
  have ht : Dfa.isTotal ⟨.ofList ['a', 'c'], 0,
      #[⟨false, [1, 2]⟩, ⟨false, [2, 2]⟩, ⟨false, [2, 2]⟩]⟩ = true := by decide +kernel
  have hempty : Dfa.isEmpty ⟨.ofList ['a', 'c'], 0,
      #[⟨false, [1, 2]⟩, ⟨false, [2, 2]⟩, ⟨false, [2, 2]⟩]⟩ = true := by decide +kernel
  exact ⟨ht, hempty, (htotal _ ht).2.1 hempty, ((hdfa _ _).2 _ _ hd).1 hempty⟩

end RegexEquiv
