import RegexEquiv.Dfa.Basic
import RegexEquiv.Error

/-!
# Two automata side by side

Two deterministic automata over one alphabet that read the same word are in a pair of states. A
breadth-first search over the pairs finds the least word, shorter words first, after which a given
condition on the two answers holds (`findWitness`). The pairs themselves, numbered in the order of
the search, are the states of an automaton for any Boolean combination of the two (`product`).
-/

namespace RegexEquiv

/-- A state of each of two automata. -/
structure Pair where
  left : Nat
  right : Nat
deriving DecidableEq, Repr

namespace Pair

/-- Pairs compare by their left states, then by their right states. -/
instance : Ord Pair := ⟨compareLex (compareOn left) (compareOn right)⟩

instance : Std.TransOrd Pair :=
  inferInstanceAs (Std.TransCmp (compareLex (compareOn left) (compareOn right)))

instance : Std.LawfulEqOrd Pair where
  compare_self := Std.ReflOrd.compare_self
  eq_of_compare {p q} h := by
    obtain ⟨hleft, hright⟩ := compareLex_eq_eq.1 h
    have hleft : p.left = q.left := Std.LawfulEqOrd.eq_of_compare hleft
    have hright : p.right = q.right := Std.LawfulEqOrd.eq_of_compare hright
    cases p
    cases q
    rw [Pair.mk.injEq]
    exact ⟨hleft, hright⟩

end Pair

/-- A Boolean combination of two answers. -/
inductive Combination where
  | intersection
  | union
  | difference
  | symmetricDifference
deriving DecidableEq, Repr

/-- The combined answer. -/
def Combination.accepts : Combination → Bool → Bool → Bool
  | intersection, left, right => left && right
  | union, left, right => left || right
  | difference, left, right => left && !right
  | symmetricDifference, left, right => left != right

/-- Why a search for a word ends early. -/
inductive Halt where
  | found (w : Word)
  | failed (e : Error)
deriving DecidableEq, Repr

namespace Dfa

/-- The pairs of states, joined by what the two automata do on each symbol. -/
def pairGraph (a b : Dfa) : Graph Pair Char where
  edges pair :=
    a.alphabet.toList.zip (List.zipWith Pair.mk (a.row pair.left) (b.row pair.right))
  bound := a.size * b.size

/-- The pair in which two automata start. -/
def startPair (a b : Dfa) : Pair := ⟨a.start, b.start⟩

/-- Applies a condition on two answers to a pair of states. -/
def holdsAt (a b : Dfa) (condition : Bool → Bool → Bool) (pair : Pair) : Bool :=
  condition (a.isAccepting pair.left) (b.isAccepting pair.right)

/-- Ends the search at a pair where the condition holds, or when the budget is used up. -/
def witnessGuard (a b : Dfa) (condition : Bool → Bool → Bool) (limits : Limits) :
    Guard Pair Char Halt := fun count v => do
  (Stage.productSearch.allow limits count).mapError .failed
  if a.holdsAt b condition v.node then .error (.found v.word)

/-- The least word after which a condition on the two answers holds, if there is one. -/
def findWitness (a b : Dfa) (condition : Bool → Bool → Bool) (limits : Limits) :
    Except Error (Option Word) :=
  match (a.pairGraph b).search (a.witnessGuard b condition limits) [a.startPair b] with
  | .ok _ => .ok none
  | .error (.found w) => .ok (some w)
  | .error (.failed e) => .error e

/-- The automaton whose answer is a combination of the answers of two. -/
def product (a b : Dfa) (op : Combination) (limits : Limits) : Except Error Dfa := do
  let found ← (a.pairGraph b).search (fun count _ => Stage.productSearch.allow limits count)
    [a.startPair b]
  let state (pair : Pair) : DfaState :=
    { accepting := a.holdsAt b op.accepts pair
      next := ((a.pairGraph b).edges pair).map fun edge => found.number edge.2 }
  return ⟨a.alphabet, 0, (found.nodes.map state).toArray⟩

end Dfa

end RegexEquiv
