import RegexEquiv.Nfa.Basic

/-!
# The automaton of a regular expression

Every expression becomes a fragment: a block of states with consecutive numbers, entered at its
first state and left from its last. Larger fragments are laid out from smaller ones and joined by
silent moves. `fragment_length` says that a fragment has as many states as `stateCount` foretells,
so the numbers of later fragments are known before earlier ones are laid out.
-/

namespace RegexEquiv

namespace Regex

/-- The number of states that an expression needs. -/
def stateCount : Regex → Nat
  | empty | epsilon | symbol _ => 2
  | cat left right => left.stateCount + right.stateCount
  | alt left right => left.stateCount + right.stateCount + 2
  | star inner | plus inner => inner.stateCount + 2

/-- The moves of the states that an expression needs, numbered from `first` on. The last state of
the fragment has silent moves to `exits`. -/
def fragment : Regex → (first : Nat) → (exits : List Nat) → List Moves
  | empty, _, exits => [{}, { silent := exits }]
  | epsilon, first, exits => [{ silent := [first + 1] }, { silent := exits }]
  | symbol c, first, exits => [{ reading := [(c, first + 1)] }, { silent := exits }]
  | cat left right, first, exits =>
      let middle := first + left.stateCount
      left.fragment first [middle] ++ right.fragment middle exits
  | alt left right, first, exits =>
      let middle := first + 1 + left.stateCount
      let last := middle + right.stateCount
      { silent := [first + 1, middle] } ::
        (left.fragment (first + 1) [last] ++ right.fragment middle [last] ++ [{ silent := exits }])
  | star inner, first, exits =>
      let last := first + 1 + inner.stateCount
      { silent := [first + 1, last] } ::
        (inner.fragment (first + 1) [first + 1, last] ++ [{ silent := exits }])
  | plus inner, first, exits =>
      let last := first + 1 + inner.stateCount
      { silent := [first + 1] } ::
        (inner.fragment (first + 1) [first + 1, last] ++ [{ silent := exits }])

/-- A fragment has as many states as foretold. -/
@[simp]
theorem fragment_length (r : Regex) (first : Nat) (exits : List Nat) :
    (r.fragment first exits).length = r.stateCount := by
  induction r generalizing first exits with
  | empty | epsilon | symbol => rfl
  | cat left right ihl ihr => simp [fragment, stateCount, ihl, ihr]
  | alt left right ihl ihr => simp [fragment, stateCount, ihl, ihr]; omega
  | star inner ih | plus inner ih => simp [fragment, stateCount, ih]

end Regex

namespace Nfa

/-- The automaton of an expression: its fragment numbered from zero, without exits. -/
def ofRegex (r : Regex) : Nfa where
  start := 0
  accept := r.stateCount - 1
  moves := (r.fragment 0 []).toArray

@[simp]
theorem size_ofRegex (r : Regex) : (ofRegex r).size = r.stateCount := by
  simp [size, ofRegex]

end Nfa

end RegexEquiv
