import RegexEquiv.Dfa.Basic
import RegexEquiv.Error
import RegexEquiv.Nfa.Basic

/-!
# Determinisation

The states of the deterministic automaton are the nonempty sets of states in which a run of the
nondeterministic one can be, numbered in the order in which a breadth-first search finds them. If
some run can die, one more state stands for the empty set: it is numbered last, refuses everything
and is never left. The empty set has no number of its own in the search, and `Discovery.number`
gives it the first free one, which is just the number of that last state.
-/

namespace RegexEquiv

namespace Nfa

/-- The nonempty sets of states, joined by what a run does on each symbol of an alphabet. -/
def subsetGraph (n : Nfa) (alphabet : Alphabet) : Graph StateSet Char where
  edges states :=
    (alphabet.toList.map fun c => (c, n.advance states c)).filter fun edge => !edge.2.isEmpty
  bound := Nat.pow 2 n.size

/-- The sets of states of runs over an alphabet, as far as the budget allows. -/
def subsets (n : Nfa) (alphabet : Alphabet) (limits : Limits) :
    Except Error (Discovery StateSet Char) :=
  (n.subsetGraph alphabet).search (fun count _ => Stage.determinization.allow limits count)
    [n.initial]

end Nfa

namespace Dfa

/-- The state for a set of states. -/
def subsetState (n : Nfa) (alphabet : Alphabet) (found : Discovery StateSet Char)
    (states : StateSet) : DfaState where
  accepting := states.contains n.accept
  next := alphabet.toList.map fun c => found.number (n.advance states c)

/-- The state that refuses everything and is never left, under a given number. -/
def sink (alphabet : Alphabet) (number : Nat) : DfaState where
  accepting := false
  next := List.replicate alphabet.size number

/-- The deterministic automaton, over an alphabet, of a nondeterministic one. -/
def ofNfa (n : Nfa) (alphabet : Alphabet) (limits : Limits) : Except Error Dfa := do
  let found ← n.subsets alphabet limits
  let states := found.nodes.map (subsetState n alphabet found)
  if states.any fun state => state.next.contains found.size then
    Stage.determinization.allow limits found.size
    return ⟨alphabet, 0, (states ++ [sink alphabet found.size]).toArray⟩
  else
    return ⟨alphabet, 0, states.toArray⟩

end Dfa

end RegexEquiv
