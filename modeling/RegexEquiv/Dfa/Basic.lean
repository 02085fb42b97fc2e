import RegexEquiv.Regex.Basic
import RegexEquiv.Search

/-!
# Deterministic automata

The states of a `Dfa` are the positions of its table. The row of a state holds one target for each
symbol of the alphabet, in the order of the alphabet. An automaton is total when its start state and
all targets are states and every row has a target for every symbol. `complement` exchanges accepting
and other states; done twice, it changes nothing (`complement_complement`).
-/

namespace RegexEquiv

/-- A state: whether it accepts, and its row of targets. -/
structure DfaState where
  accepting : Bool
  next : List Nat
deriving DecidableEq, Repr, Inhabited

/-- A deterministic automaton over an alphabet. -/
structure Dfa where
  alphabet : Alphabet
  start : Nat
  states : Array DfaState
deriving DecidableEq

namespace Dfa

/-- The number of states. -/
def size (d : Dfa) : Nat := d.states.size

/-- The row of a state; a number outside the table has an empty row. -/
def row (d : Dfa) (state : Nat) : List Nat := (d.states[state]?.map DfaState.next).getD []

/-- Whether a state accepts. -/
def isAccepting (d : Dfa) (state : Nat) : Bool := d.states[state]?.any DfaState.accepting

/-- The accepting states, in increasing order. -/
def acceptingStates (d : Dfa) : List Nat := (List.range d.size).filter d.isAccepting

/-- The target of a state for a symbol of the alphabet. -/
def next? (d : Dfa) (state : Nat) (c : Char) : Option Nat := do
  let column ← d.alphabet.idxOf? c
  (d.row state)[column]?

/-- The state after a word, unless the word has a symbol outside the alphabet. -/
def run? (d : Dfa) (w : Word) : Option Nat := w.foldlM d.next? d.start

/-- Whether a word is accepted. -/
def accepts (d : Dfa) (w : Word) : Bool := (d.run? w).any d.isAccepting

/-- Whether every state has one target, inside the table, for every symbol. -/
def isTotal (d : Dfa) : Bool :=
  d.start < d.size && d.states.all fun state =>
    state.next.length == d.alphabet.size && state.next.all (· < d.size)

/-- The automaton that accepts the words over the alphabet that were refused before. -/
def complement (d : Dfa) : Dfa :=
  { d with states := d.states.map fun state => { state with accepting := !state.accepting } }

/-- The states along all moves. -/
def moveGraph (d : Dfa) : Graph Nat Unit where
  edges state := (d.row state).map ((), ·)
  bound := d.size

/-- Whether no word is accepted, that is, no accepting state can be reached. -/
def isEmpty (d : Dfa) : Bool := (d.moveGraph.reach [d.start]).nodes.all fun s => !d.isAccepting s

/-- The complement of the complement is the automaton itself. -/
@[simp]
theorem complement_complement (d : Dfa) : d.complement.complement = d := by
  simp [complement, Function.comp_def]

end Dfa

end RegexEquiv
