import RegexEquiv.Dfa.Subset
import RegexEquiv.Dfa.Verdict
import RegexEquiv.Nfa.Thompson
import RegexEquiv.Regex.Parser

/-!
# Comparing patterns

Patterns are compared through the deterministic automata that they compile to. The first pattern is
compiled before the second is looked at, so of two errors the one of the first pattern is reported.
-/

namespace RegexEquiv

/-- A compiled pattern: the automaton laid out from it, and the deterministic one. -/
structure Compiled where
  nfa : Nfa
  dfa : Dfa
deriving DecidableEq

/-- Compiles a pattern over an alphabet and keeps both automata. -/
def Compiled.ofPattern (pattern : List Char) (alphabet : Alphabet) (limits : Limits) :
    Except Error Compiled := do
  let r ← (Regex.parse pattern alphabet).mapError .malformed
  let nfa := Nfa.ofRegex r
  return { nfa, dfa := ← Dfa.ofNfa nfa alphabet limits }

/-- The deterministic automaton of a pattern over an alphabet. -/
def compile (pattern : List Char) (alphabet : Alphabet) (limits : Limits) : Except Error Dfa :=
  (Compiled.ofPattern pattern alphabet limits).map Compiled.dfa

/-- Compares the languages of two patterns. -/
def equivalence (a b : List Char) (alphabet : Alphabet) (limits : Limits) :
    Except Error Verdict := do
  let left ← compile a alphabet limits
  let right ← compile b alphabet limits
  left.verdict right limits

/-- Whether two patterns have the same language. -/
def areEquivalent (a b : List Char) (alphabet : Alphabet) : Except Error Bool :=
  (equivalence a b alphabet {}).map Verdict.isEquivalent

/-- The least word of the first pattern that the second does not match, if there is one. -/
def inclusion (a b : List Char) (alphabet : Alphabet) (limits : Limits) :
    Except Error (Option Word) := do
  let left ← compile a alphabet limits
  let right ← compile b alphabet limits
  left.inclusionWitness right limits

/-- Whether every word of the first pattern is a word of the second. -/
def isIncluded (a b : List Char) (alphabet : Alphabet) : Except Error Bool :=
  (inclusion a b alphabet {}).map Option.isNone

end RegexEquiv
