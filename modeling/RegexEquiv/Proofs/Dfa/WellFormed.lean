import RegexEquiv.Proofs.Dfa.Complement
import RegexEquiv.Proofs.Dfa.Product
import RegexEquiv.Proofs.Dfa.Subset

/-!
# Well-formed automata

An automaton is well formed when it is total, starts in its first state, accepts in states of its
table only, and has no state to which no word leads. Determinisation makes such automata
(`Dfa.wellFormed_ofNfa`), and products and complements of them are such automata again
(`Dfa.WellFormed.product`, `Dfa.WellFormed.complement`).
-/

namespace RegexEquiv.Dfa

/-- `d.WellFormed alphabet` says that `d` is a total automaton over an alphabet that starts in its
first state, accepts in its states only, and can get to each of them. -/
structure WellFormed (d : Dfa) (alphabet : Alphabet) : Prop where
  alphabet_eq : d.alphabet = alphabet
  total : d.isTotal = true
  start_eq : d.start = 0
  accepting_lt : ∀ s, d.isAccepting s = true → s < d.size
  reachable : ∀ s < d.size, ∃ w, Word.Over alphabet w ∧ d.run? w = some s

variable {a b d : Dfa} {n : Nfa} {alphabet : Alphabet} {limits : Limits}

/-- Only states of the table accept. -/
theorem lt_size_of_isAccepting {s : Nat} (h : d.isAccepting s = true) : s < d.size := by
  obtain ⟨state, hstate, -⟩ := (Option.any_eq_true _ _).1 h
  exact (Array.getElem?_eq_some_iff.1 hstate).1

/-- The words that lead to states of an automaton are words over its alphabet. -/
theorem reachable_of_exists_run? (halphabet : d.alphabet = alphabet)
    (h : ∀ {s}, s < d.size → ∃ w, d.run? w = some s) :
    ∀ s < d.size, ∃ w, Word.Over alphabet w ∧ d.run? w = some s := by
  intro s hs
  obtain ⟨w, hrun⟩ := h hs
  exact ⟨w, halphabet ▸ over_of_run? hrun, hrun⟩

/-- A determinised automaton is well formed. -/
theorem wellFormed_ofNfa (h : n.Closed) (hd : ofNfa n alphabet limits = .ok d) :
    d.WellFormed alphabet where
  alphabet_eq := alphabet_ofNfa hd
  total := isTotal_ofNfa h hd
  start_eq := start_ofNfa hd
  accepting_lt _ := lt_size_of_isAccepting
  reachable := reachable_of_exists_run? (alphabet_ofNfa hd) (exists_run?_ofNfa h hd)

namespace WellFormed

theorem alphabet_eq_alphabet (ha : a.WellFormed alphabet) (hb : b.WellFormed alphabet) :
    a.alphabet = b.alphabet := ha.alphabet_eq.trans hb.alphabet_eq.symm

/-- The product of two well-formed automata is well formed. -/
theorem product {op : Combination} (ha : a.WellFormed alphabet) (hb : b.WellFormed alphabet)
    (hd : a.product b op limits = .ok d) : d.WellFormed alphabet := by
  have hab := ha.alphabet_eq_alphabet hb
  have halphabet : d.alphabet = alphabet := (alphabet_product hd).trans ha.alphabet_eq
  exact
    { alphabet_eq := halphabet
      total := isTotal_product ha.total hb.total hab hd
      start_eq := start_product hd
      accepting_lt _ := lt_size_of_isAccepting
      reachable :=
        reachable_of_exists_run? halphabet (exists_run?_product ha.total hb.total hab hd) }

/-- The complement of a well-formed automaton is well formed. -/
theorem complement (h : d.WellFormed alphabet) : d.complement.WellFormed alphabet where
  alphabet_eq := h.alphabet_eq
  total := (isTotal_complement d).trans h.total
  start_eq := h.start_eq
  accepting_lt _ := lt_size_of_isAccepting
  reachable s hs := by
    rw [size_complement] at hs
    simpa only [run?_complement] using h.reachable s hs

end WellFormed

end RegexEquiv.Dfa
