import RegexEquiv.SortedSet
import Std.Data.TreeMap

/-!
# Breadth-first search in a labelled graph

A search numbers the nodes of a graph in the order in which it finds them. It takes up the nodes in
that order, and the edges of a node in the order of the graph, so the nodes that it finds come in
the order of their least access words, shorter words first. Every found node keeps the labels that
led to it.

A guard is asked before a new node is added, with the number of nodes found so far; it can end the
search with a reason of its own; otherwise the search ends when all found nodes have been taken up.
`Discovery.numbered` says that numbers and found nodes determine each other, so that no node is
found twice.
-/

namespace RegexEquiv

/-- A graph with labelled, ordered edges. -/
structure Graph (σ ℓ : Type) where
  /-- The edges out of a node, in the order in which a search takes them. -/
  edges : σ → List (ℓ × σ)
  /-- At least the number of nodes that a search can find. -/
  bound : Nat

/-- A found node. -/
structure Visit (σ ℓ : Type) where
  node : σ
  /-- The labels on the way to the node, last first. -/
  trail : List ℓ

/-- The labels on the way to a found node, in order. -/
def Visit.word {σ ℓ : Type} (v : Visit σ ℓ) : List ℓ := v.trail.reverse

/-- The nodes found so far, in order, and their numbers. -/
structure Discovery (σ ℓ : Type) [Ord σ] where
  visits : Array (Visit σ ℓ)
  numbers : Std.TreeMap σ Nat
  /-- Numbers and found nodes determine each other. -/
  numbered : ∀ (x : σ) (i : Nat), numbers[x]? = some i ↔ visits[i]?.map Visit.node = some x

/-- What may end a search before a node is added as the next: the number of nodes found so far, and
the node. -/
abbrev Guard (σ ℓ ε : Type) := Nat → Visit σ ℓ → Except ε Unit

variable {σ ℓ ε : Type} [Ord σ]

namespace Discovery

/-- The number of nodes found. -/
def size (found : Discovery σ ℓ) : Nat := found.visits.size

/-- The nodes found, in order. -/
def nodes (found : Discovery σ ℓ) : List σ := found.visits.toList.map Visit.node

/-- The number of a node. All nodes that have not been found share the first free number. -/
def number (found : Discovery σ ℓ) (x : σ) : Nat := found.numbers[x]?.getD found.size

variable [Std.TransOrd σ] [Std.LawfulEqOrd σ]

omit [Std.LawfulEqOrd σ] in
/-- The nodes found, as a set. -/
def nodeSet (found : Discovery σ ℓ) : SortedSet σ := ⟨found.numbers.keys, Std.TreeMap.ordered_keys⟩

/-- The set of the nodes found has the members of the list of them. -/
theorem mem_nodeSet {found : Discovery σ ℓ} {x : σ} : x ∈ found.nodeSet ↔ x ∈ found.nodes := by
  rw [← SortedSet.mem_toList, nodeSet, Std.TreeMap.mem_keys, Std.TreeMap.mem_iff_isSome_getElem?,
    Option.isSome_iff_exists, nodes, List.mem_map]
  simp only [found.numbered, Option.map_eq_some_iff, ← Array.getElem?_toList,
    List.mem_iff_getElem?]
  constructor
  · rintro ⟨i, v, hv, rfl⟩
    exact ⟨v, ⟨i, hv⟩, rfl⟩
  · rintro ⟨v, ⟨i, hv⟩, rfl⟩
    exact ⟨i, v, hv, rfl⟩

omit [Std.LawfulEqOrd σ] in
/-- Before anything is found. -/
def empty : Discovery σ ℓ := ⟨#[], ∅, by simp⟩

/-- Numbers and found nodes still determine each other when a new node takes the first free
number. -/
theorem numbered_add (found : Discovery σ ℓ) (v : Visit σ ℓ) (h : found.numbers[v.node]? = none)
    (x : σ) (i : Nat) : (found.numbers.insert v.node found.size)[x]? = some i ↔
      (found.visits.push v)[i]?.map Visit.node = some x := by
  have hold := found.numbered x i
  rw [Std.TreeMap.getElem?_insert, Array.getElem?_push, size]
  by_cases hx : v.node = x
  · subst hx
    simp only [h, reduceCtorEq, false_iff] at hold
    by_cases hi : i = found.visits.size
    · simp [hi]
    · simpa [hi, Ne.symm hi] using hold
  · by_cases hi : i = found.visits.size
    · simpa [hi, hx] using hold
    · simpa [hi, hx] using hold

/-- One more node, which takes the first free number. -/
def add (found : Discovery σ ℓ) (v : Visit σ ℓ) (h : found.numbers[v.node]? = none) :
    Discovery σ ℓ :=
  let next := found.size
  { visits := found.visits.push v
    numbers := found.numbers.insert v.node next
    numbered := found.numbered_add v h }

/-- Adds a node unless it is known, or ends with the reason of the guard. -/
def visit (guard : Guard σ ℓ ε) (found : Discovery σ ℓ) (v : Visit σ ℓ) :
    Except ε (Discovery σ ℓ) :=
  match h : found.numbers[v.node]? with
  | some _ => .ok found
  | none => do
      guard found.size v
      return found.add v h

end Discovery

namespace Graph

variable [Std.TransOrd σ] [Std.LawfulEqOrd σ]

/-- Adds the successors of a found node. -/
def expand (g : Graph σ ℓ) (guard : Guard σ ℓ ε) (found : Discovery σ ℓ) (v : Visit σ ℓ) :
    Except ε (Discovery σ ℓ) :=
  (g.edges v.node).foldlM (fun found (label, x) => found.visit guard ⟨x, label :: v.trail⟩) found

/-- Takes up the found nodes from number `next` on. -/
def explore (g : Graph σ ℓ) (guard : Guard σ ℓ ε) (found : Discovery σ ℓ) (next : Nat) :
    Except ε (Discovery σ ℓ) :=
  if next < g.bound then
    match found.visits[next]? with
    | none => .ok found
    | some v => do g.explore guard (← g.expand guard found v) (next + 1)
  else .ok found
termination_by g.bound - next

/-- Searches from some nodes, or ends with the reason of the guard. -/
def search (g : Graph σ ℓ) (guard : Guard σ ℓ ε) (starts : List σ) : Except ε (Discovery σ ℓ) := do
  let found ← starts.foldlM (fun found x => found.visit guard ⟨x, []⟩) .empty
  g.explore guard found 0

/-- Finds all that can be reached from some nodes. -/
def reach (g : Graph σ ℓ) (starts : List σ) : Discovery σ ℓ :=
  match g.search (fun _ _ => .ok ()) starts with
  | .ok found => found
  | .error reason => nomatch (reason : Empty)

end Graph

end RegexEquiv
