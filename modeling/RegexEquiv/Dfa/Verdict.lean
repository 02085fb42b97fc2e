import RegexEquiv.Dfa.Product

/-!
# Comparing the languages of two automata

Two automata over one alphabet accept the same words, or there is a least word on which they
differ, and then exactly one of them accepts it. `Verdict.swap` is the verdict when the automata
change places.
-/

namespace RegexEquiv

/-- One of two automata that are compared. -/
inductive Side where
  | left
  | right
deriving DecidableEq, Repr

/-- The other side. -/
def Side.other : Side → Side
  | left => right
  | right => left

/-- The outcome of a comparison: the languages are equal, or a word tells them apart. -/
inductive Verdict where
  | equivalent
  | different (witness : Word) (acceptedBy : Side)
deriving DecidableEq, Repr

namespace Verdict

/-- Whether the languages are equal. -/
def isEquivalent : Verdict → Bool
  | equivalent => true
  | different _ _ => false

/-- The verdict with the sides exchanged. -/
def swap : Verdict → Verdict
  | equivalent => equivalent
  | different witness side => different witness side.other

end Verdict

namespace Dfa

/-- Compares two automata over one alphabet. -/
def verdict (a b : Dfa) (limits : Limits) : Except Error Verdict := do
  match ← a.findWitness b Combination.symmetricDifference.accepts limits with
  | none => return .equivalent
  | some w => return .different w (if a.accepts w then .left else .right)

/-- The least word that the first automaton accepts and the second does not, if there is one. -/
def inclusionWitness (a b : Dfa) (limits : Limits) : Except Error (Option Word) :=
  a.findWitness b Combination.difference.accepts limits

end Dfa

end RegexEquiv
