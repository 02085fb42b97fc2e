import Mathlib.Logic.Relation
import RegexEquiv.Proofs.Nfa.Fragment
import RegexEquiv.Proofs.Search.Exhaust

/-!
# Closing sets of states

The closure of some states is found by a search along silent moves, from a list in which states may
stand twice and which may have numbers outside the table. Paths that read nothing are chains of
silent moves (`Nfa.leads_nil_iff`), so the closure has the states at the ends of such chains
(`Nfa.mem_closure_iff_chain`). All laws of a closure follow from this, and likewise those of a step
from `Nfa.mem_step`. `Nfa.closure_ofRegex` gathers them for the automaton of an expression, where
loops within loops give circles of silent moves, and adds that the search comes to an end.
-/

namespace RegexEquiv.Nfa

variable {n : Nfa}

/-- `n.Silently s t` says that a silent move leads from `s` to `t`. -/
def Silently (n : Nfa) (s t : Nat) : Prop := t ∈ (n.movesFrom s).silent

/-- A path that reads nothing is a chain of silent moves. -/
theorem leads_nil_iff {s t : Nat} : n.Leads s [] t ↔ Relation.ReflTransGen n.Silently s t := by
  constructor
  · intro h
    obtain ⟨k, hpath⟩ := h
    generalize hword : ([] : Word) = w at hpath
    induction hpath with
    | stay => exact .refl
    | silent hmove _ ih => exact .head hmove (ih hword)
    | read => cases hword
  · intro h
    induction h with
    | refl => exact .refl n s
    | tail _ hmove ih => exact ih.trans (.silent hmove (.refl n _))

/-- No chain of silent moves leads out of the table, or on from a state outside it. -/
theorem eq_of_chain_of_size_le (h : n.Closed) {s t : Nat} (ht : n.size ≤ t)
    (hchain : Relation.ReflTransGen n.Silently s t) : s = t := by
  cases hchain with
  | refl => rfl
  | tail _ hmove => exact absurd (h.silent _ t hmove) (Nat.not_lt.2 ht)

/-! ## Members of a closure -/

section Members

variable (h : n.Closed) {states others : List Nat} {s t : Nat}
include h

/-- A closure has the states at the ends of chains of silent moves. -/
theorem mem_closure_iff_chain :
    t ∈ n.closure states ↔ ∃ s ∈ states, Relation.ReflTransGen n.Silently s t := by
  simp only [mem_closure h, leads_nil_iff]

theorem mem_closure_of_mem (hs : s ∈ states) : s ∈ n.closure states :=
  (mem_closure_iff_chain h).2 ⟨s, hs, .refl⟩

/-- From more states, no fewer are reached. -/
theorem closure_mono (hsub : ∀ s ∈ states, s ∈ others) (ht : t ∈ n.closure states) :
    t ∈ n.closure others := by
  obtain ⟨s, hs, hchain⟩ := (mem_closure_iff_chain h).1 ht
  exact (mem_closure_iff_chain h).2 ⟨s, hsub s hs, hchain⟩

/-- A state outside the table is in a closure only if it is among those that are closed. -/
theorem mem_closure_of_size_le (ht : n.size ≤ t) : t ∈ n.closure states ↔ t ∈ states := by
  rw [mem_closure_iff_chain h]
  constructor
  · intro hmem
    obtain ⟨s, hs, hchain⟩ := hmem
    exact eq_of_chain_of_size_le h ht hchain ▸ hs
  · exact fun hs => ⟨t, hs, .refl⟩

/-! ## Closures of closures and of unions -/

/-- A closure is closed. -/
theorem closure_closure (states : List Nat) :
    n.closure (n.closure states).toList = n.closure states := by
  refine SortedSet.ext_mem fun t => ?_
  constructor
  · intro ht
    obtain ⟨m, hm, hlast⟩ := (mem_closure_iff_chain h).1 ht
    obtain ⟨s, hs, hfirst⟩ := (mem_closure_iff_chain h).1 (SortedSet.mem_toList.1 hm)
    exact (mem_closure_iff_chain h).2 ⟨s, hs, hfirst.trans hlast⟩
  · exact fun ht => mem_closure_of_mem h (SortedSet.mem_toList.2 ht)

/-- A state outside the table is closed. -/
theorem closure_of_size_le (hs : n.size ≤ s) : n.closure [s] = .ofList [s] := by
  refine SortedSet.ext_mem fun t => ?_
  rw [SortedSet.mem_ofList, mem_closure_iff_chain h]
  constructor
  · intro ht
    obtain ⟨s', hs', hchain⟩ := ht
    obtain rfl := List.mem_singleton.1 hs'
    cases hchain.cases_head with
    | inl heq => exact List.mem_singleton.2 heq.symm
    | inr hmove =>
        obtain ⟨m, hmove, -⟩ := hmove
        rw [Silently, movesFrom_of_size_le hs] at hmove
        cases hmove
  · exact fun ht => ⟨t, ht, .refl⟩

/-- The closure of a union is the union of the closures. -/
theorem closure_union (a b : StateSet) :
    n.closure (a.union b).toList = (n.closure a.toList).union (n.closure b.toList) :=
  SortedSet.ext_mem fun t => by
    simp only [SortedSet.mem_union, mem_closure_iff_chain h, SortedSet.mem_toList, or_and_right,
      exists_or]

end Members

/-- A step from a union is the union of the steps. -/
theorem step_union (n : Nfa) (a b : StateSet) (c : Char) :
    n.step (a.union b) c = (n.step a c).union (n.step b c) :=
  SortedSet.ext_mem fun t => by
    simp only [SortedSet.mem_union, mem_step, or_and_right, exists_or]

/-- For the automaton of an expression, the search for a closure takes up what it finds, beginning
with the given states, and comes to an end. It gives a strictly increasing list of the states at the
ends of chains of silent moves from the given states; states outside the table have only
themselves. So a closure has the states that are closed, grows with them and is closed itself.
Closures and steps of unions are the unions of closures and of steps. -/
theorem closure_ofRegex (r : Regex) :
    (∀ states : List Nat,
      (∃ first, (∀ s, s ∈ first.nodes ↔ s ∈ states) ∧
        ((ofRegex r).silentGraph states.length).Exhausts first 0
          (((ofRegex r).silentGraph states.length).reach states)) ∧
      ((ofRegex r).closure states).toList.Pairwise (· < ·) ∧
      (∀ t, t ∈ (ofRegex r).closure states ↔
        ∃ s ∈ states, Relation.ReflTransGen (ofRegex r).Silently s t) ∧
      (∀ t, (ofRegex r).size ≤ t → (t ∈ (ofRegex r).closure states ↔ t ∈ states)) ∧
      (∀ s ∈ states, s ∈ (ofRegex r).closure states) ∧
      (∀ others : List Nat, (∀ s ∈ states, s ∈ others) →
        ∀ t ∈ (ofRegex r).closure states, t ∈ (ofRegex r).closure others) ∧
      (ofRegex r).closure ((ofRegex r).closure states).toList = (ofRegex r).closure states) ∧
    (∀ s, (ofRegex r).size ≤ s → (ofRegex r).closure [s] = .ofList [s]) ∧
    ∀ a b : StateSet,
      (ofRegex r).closure (a.union b).toList =
        ((ofRegex r).closure a.toList).union ((ofRegex r).closure b.toList) ∧
      ∀ c, (ofRegex r).step (a.union b) c = ((ofRegex r).step a c).union ((ofRegex r).step b c) := by
  have hclosed := closed_ofRegex r
  refine ⟨fun states => ⟨?_, ?_, ?_, ?_, ?_, ?_, ?_⟩, ?_, fun a b => ⟨?_, ?_⟩⟩
  · exact Graph.reach_exhausts_starts (silentGraph_fits hclosed states)
  · exact ((ofRegex r).closure states).sorted.imp compareOfLessAndEq_eq_lt.1
  · exact fun t => mem_closure_iff_chain hclosed
  · exact fun t => mem_closure_of_size_le hclosed
  · exact fun s => mem_closure_of_mem hclosed
  · exact fun others hsub t => closure_mono hclosed hsub
  · exact closure_closure hclosed states
  · exact fun s => closure_of_size_le hclosed
  · exact closure_union hclosed a b
  · exact (ofRegex r).step_union a b

/-- In the automaton of `(a*)*`, silent moves lead in a circle from `1` over `4` back to `1`. From
`4` and a state outside the table, each listed twice, the whole circle is found. -/
theorem closure_ofRegex_circle :
    4 ∈ [4, 9, 4, 9] ∧ (ofRegex (.star (.star (.symbol 'a')))).size = 6 ∧
      (ofRegex (.star (.star (.symbol 'a')))).closure [4, 9, 4, 9] = .ofList [1, 2, 4, 5, 9] ∧
      (∃ s ∈ [4, 9, 4, 9],
        Relation.ReflTransGen (ofRegex (.star (.star (.symbol 'a')))).Silently s 2) ∧
      4 ∈ (ofRegex (.star (.star (.symbol 'a')))).closure [9, 4] ∧
      (ofRegex (.star (.star (.symbol 'a')))).closure [9] = .ofList [9] := by
  have hclosure : (ofRegex (.star (.star (.symbol 'a')))).closure [4, 9, 4, 9] =
      .ofList [1, 2, 4, 5, 9] := by decide +kernel
  have hsize : (ofRegex (.star (.star (.symbol 'a')))).size = 6 := by decide
  obtain ⟨hsearch, houtside, -⟩ := closure_ofRegex (.star (.star (.symbol 'a')))
  obtain ⟨-, -, hchain, -, hextensive, hmono, -⟩ := hsearch [4, 9, 4, 9]
  refine ⟨by decide, hsize, hclosure, (hchain 2).1 ?_, ?_, houtside 9 (by decide)⟩
  · rw [hclosure, SortedSet.mem_ofList]
    decide
  · exact hmono [9, 4] (by decide) 4 (hextensive 4 (by decide))

end RegexEquiv.Nfa
