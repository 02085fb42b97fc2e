import RegexEquiv.Regex.Basic
import RegexEquiv.Search

/-!
# Nondeterministic automata with silent moves

The states of an `Nfa` are the positions of its table of moves. A state has silent moves and moves
that read a symbol. A run keeps the set of states in which the automaton can be after the symbols
read so far: it starts in the closure of the start state under silent moves, and for each symbol it
takes all moves that read it and closes again. State numbers outside the table are legal and have no
moves. `run_append` says that a run over two words is a run over the first continued over the
second.
-/

namespace RegexEquiv

/-- A set of state numbers. -/
abbrev StateSet := SortedSet Nat

/-- The moves out of a state. -/
structure Moves where
  /-- The targets of silent moves, in increasing order. -/
  silent : List Nat := []
  /-- The moves that read a symbol. -/
  reading : List (Char × Nat) := []
deriving DecidableEq, Repr, Inhabited

/-- A nondeterministic automaton with one accepting state. -/
structure Nfa where
  start : Nat
  accept : Nat
  moves : Array Moves
deriving DecidableEq, Repr

namespace Nfa

/-- The number of states. -/
def size (n : Nfa) : Nat := n.moves.size

/-- The moves out of a state; a number outside the table has none. -/
def movesFrom (n : Nfa) (state : Nat) : Moves := n.moves[state]?.getD {}

/-- The targets of the moves out of a state that read a symbol. -/
def readFrom (n : Nfa) (c : Char) (state : Nat) : List Nat :=
  ((n.movesFrom state).reading.filter (·.1 = c)).map (·.2)

/-- The states along silent moves, for a search from a number of states. -/
def silentGraph (n : Nfa) (starts : Nat) : Graph Nat Unit where
  edges state := (n.movesFrom state).silent.map ((), ·)
  bound := n.size + starts

/-- The states along all moves. -/
def moveGraph (n : Nfa) : Graph Nat Unit where
  edges state :=
    let moves := n.movesFrom state
    (moves.silent ++ moves.reading.map (·.2)).map ((), ·)
  bound := n.size

/-- The states reached from some states by silent moves alone, themselves included. -/
def closure (n : Nfa) (states : List Nat) : StateSet :=
  ((n.silentGraph states.length).reach states).nodeSet

/-- The states reached from a set by one move that reads a symbol. -/
def step (n : Nfa) (states : StateSet) (c : Char) : StateSet :=
  .ofList (states.toList.flatMap (n.readFrom c))

/-- The states reached from a set by reading a symbol, silent moves afterwards included. -/
def advance (n : Nfa) (states : StateSet) (c : Char) : StateSet :=
  n.closure (n.step states c).toList

/-- The states before anything is read. -/
def initial (n : Nfa) : StateSet := n.closure [n.start]

/-- The states after a word is read. -/
def run (n : Nfa) (w : Word) : StateSet := w.foldl n.advance n.initial

/-- Whether a word is accepted. -/
def accepts (n : Nfa) (w : Word) : Bool := (n.run w).contains n.accept

/-- The states that can be reached from the start state. -/
def reachable (n : Nfa) : StateSet := (n.moveGraph.reach [n.start]).nodeSet

/-- Whether no word is accepted, that is, the accepting state cannot be reached. -/
def isEmpty (n : Nfa) : Bool := !n.reachable.contains n.accept

/-- A run over two words is a run over the first, continued over the second. -/
theorem run_append (n : Nfa) (u v : Word) : n.run (u ++ v) = v.foldl n.advance (n.run u) :=
  List.foldl_append

end Nfa

end RegexEquiv
