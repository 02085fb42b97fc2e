import RegexEquiv.Proofs.Dfa.Run

/-!
# The language of a complement

Complementing exchanges accepting and other states and leaves all rows alone, so every run ends
where it ended before (`Dfa.run?_complement`). A total automaton has a run on every word over its
alphabet, and so its complement accepts the words over the alphabet that it refuses:
`Dfa.accepts_complement`.
-/

namespace RegexEquiv.Dfa

variable {d : Dfa}

/-! ## What stays -/

@[simp]
theorem alphabet_complement (d : Dfa) : d.complement.alphabet = d.alphabet := rfl

@[simp]
theorem start_complement (d : Dfa) : d.complement.start = d.start := rfl

@[simp]
theorem size_complement (d : Dfa) : d.complement.size = d.size := Array.size_map

theorem states_complement (d : Dfa) (s : Nat) : d.complement.states[s]? =
    d.states[s]?.map fun state => { state with accepting := !state.accepting } :=
  Array.getElem?_map

@[simp]
theorem row_complement (d : Dfa) (s : Nat) : d.complement.row s = d.row s := by
  unfold row
  rw [states_complement, Option.map_map]
  rfl

@[simp]
theorem next?_complement (d : Dfa) (s : Nat) (c : Char) : d.complement.next? s c = d.next? s c := by
  simp [next?]

/-- Every run ends where it ended before. -/
@[simp]
theorem run?_complement (d : Dfa) (w : Word) : d.complement.run? w = d.run? w := by
  have hnext : d.complement.next? = d.next? := funext fun s => funext (next?_complement d s)
  rw [run?, hnext]
  rfl

@[simp]
theorem isTotal_complement (d : Dfa) : d.complement.isTotal = d.isTotal := by
  rw [Bool.eq_iff_iff, isTotal_iff, isTotal_iff]
  simp

/-! ## What changes -/

/-- A state of the table accepts when it did not accept before. -/
theorem isAccepting_complement {s : Nat} (hs : s < d.size) :
    d.complement.isAccepting s = !d.isAccepting s := by
  have hget : d.states[s]? = some d.states[s] := Array.getElem?_eq_getElem hs
  rw [isAccepting_of_getElem? hget]
  exact isAccepting_of_getElem? (by rw [states_complement, hget]; rfl)

/-- The complement of a total automaton accepts the words over the alphabet that the automaton
refuses. A word with another symbol is refused by both. -/
theorem accepts_complement (h : d.isTotal = true) {w : Word} :
    d.complement.accepts w = true ↔ Word.Over d.alphabet w ∧ ¬ d.accepts w = true := by
  have hflip : ∀ {s}, d.run? w = some s → d.complement.accepts w = !d.accepts w := by
    intro s hrun
    have hrun' : d.complement.run? w = some s := (run?_complement d w).trans hrun
    rw [accepts_of_run? hrun, accepts_of_run? hrun', isAccepting_complement (run?_lt h hrun)]
  constructor
  · intro haccepts
    have hover : Word.Over d.complement.alphabet w := over_of_accepts haccepts
    rw [alphabet_complement] at hover
    obtain ⟨s, hrun⟩ := (run?_isSome_iff h).2 hover
    rw [hflip hrun] at haccepts
    exact ⟨hover, by simpa using haccepts⟩
  · intro hrefused
    obtain ⟨s, hrun⟩ := (run?_isSome_iff h).2 hrefused.1
    rw [hflip hrun]
    simpa using hrefused.2

end RegexEquiv.Dfa
