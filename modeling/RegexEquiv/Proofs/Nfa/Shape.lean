import RegexEquiv.Proofs.Nfa.Fragment

/-!
# The shape of the automaton of an expression

Every node of an expression that is not a concatenation adds a first and a last state, and a
concatenation adds none (`Regex.stateCount_eq`). Each state reads one symbol, or has one or two
silent moves, or none at all (`Regex.fragment_elementary`). Fragments are entered at their first
state from outside only, and left from their last state by their exits only, so the automaton as a
whole has no move into its start and none out of its accepting state: `Nfa.shape_ofRegex`.
-/

namespace RegexEquiv

namespace Regex

/-- The expressions at the nodes of an expression, from the root down and from left to right. -/
def nodes : Regex → List Regex
  | empty => [empty]
  | epsilon => [epsilon]
  | symbol c => [symbol c]
  | cat left right => cat left right :: (left.nodes ++ right.nodes)
  | alt left right => alt left right :: (left.nodes ++ right.nodes)
  | star inner => star inner :: inner.nodes
  | plus inner => plus inner :: inner.nodes

/-- Whether the root is a concatenation. -/
def isCat : Regex → Bool
  | cat _ _ => true
  | _ => false

/-- There are two states for every node that is not a concatenation. -/
theorem stateCount_eq (r : Regex) : r.stateCount = 2 * r.nodes.countP fun node => !node.isCat := by
  induction r with
  | empty | epsilon | symbol => rfl
  | cat left right ihl ihr => simp [stateCount, nodes, isCat, ihl, ihr]; omega
  | alt left right ihl ihr => simp [stateCount, nodes, isCat, ihl, ihr]; omega
  | star inner ih | plus inner ih => simp [stateCount, nodes, isCat, ih]; omega

end Regex

/-- The targets of all moves. -/
def Moves.targets (moves : Moves) : List Nat := moves.silent ++ moves.reading.map (·.2)

/-- `moves.Elementary` says that there is no move, one move, which reads a symbol, or one silent
move or two to different states. -/
inductive Moves.Elementary : Moves → Prop where
  | none : Elementary {}
  | read (c : Char) (t : Nat) : Elementary { reading := [(c, t)] }
  | step (t : Nat) : Elementary { silent := [t] }
  | branch {t u : Nat} : t < u → Elementary { silent := [t, u] }

/-- All states of a fragment have elementary moves if its last state has. -/
theorem Regex.fragment_elementary (r : Regex) {first : Nat} {exits : List Nat} {moves : Moves}
    (hexits : Moves.Elementary { silent := exits }) (h : moves ∈ r.fragment first exits) :
    moves.Elementary := by
  -- A node gives its parts exits of their own, so the induction is over all exits.
  induction r generalizing first exits with
  | empty =>
      simp only [fragment, List.mem_cons, List.not_mem_nil, or_false] at h
      obtain rfl | rfl := h
      · exact .none
      · exact hexits
  | epsilon =>
      simp only [fragment, List.mem_cons, List.not_mem_nil, or_false] at h
      obtain rfl | rfl := h
      · exact .step _
      · exact hexits
  | symbol c =>
      simp only [fragment, List.mem_cons, List.not_mem_nil, or_false] at h
      obtain rfl | rfl := h
      · exact .read _ _
      · exact hexits
  | cat left right ihl ihr =>
      obtain h | h := List.mem_append.1 h
      · exact ihl (.step _) h
      · exact ihr hexits h
  | alt left right ihl ihr =>
      have hleft := left.two_le_stateCount
      simp only [fragment, List.mem_cons, List.mem_append, List.not_mem_nil, or_false] at h
      obtain rfl | (h | h) | rfl := h
      · exact .branch (by omega)
      · exact ihl (.step _) h
      · exact ihr (.step _) h
      · exact hexits
  | star inner ih =>
      have hinner := inner.two_le_stateCount
      simp only [fragment, List.mem_cons, List.mem_append, List.not_mem_nil, or_false] at h
      obtain rfl | h | rfl := h
      · exact .branch (by omega)
      · exact ih (.branch (by omega)) h
      · exact hexits
  | plus inner ih =>
      have hinner := inner.two_le_stateCount
      simp only [fragment, List.mem_cons, List.mem_append, List.not_mem_nil, or_false] at h
      obtain rfl | h | rfl := h
      · exact .step _
      · exact ih (.branch (by omega)) h
      · exact hexits

namespace Nfa

/-- Moves lead behind the start and stay in the table. -/
theorem between_of_mem_targets {r : Regex} {s t : Nat}
    (ht : t ∈ ((ofRegex r).movesFrom s).targets) : 0 < t ∧ t < r.stateCount := by
  obtain ⟨hsilent, hreading⟩ := within_ofRegex r s
  obtain ht | ht := List.mem_append.1 ht
  · obtain hexit | hbetween := hsilent t ht
    · cases hexit
    · exact hbetween
  · obtain ⟨move, hmove, rfl⟩ := List.mem_map.1 ht
    exact hreading move hmove

/-- All states of the automaton of an expression have elementary moves. -/
theorem elementary_ofRegex (r : Regex) (s : Nat) : ((ofRegex r).movesFrom s).Elementary := by
  obtain hnone | hmem := movesFrom_ofRegex r s
  · rw [hnone]
    exact .none
  · exact r.fragment_elementary .none hmem

/-- The automaton of an expression has two states for every node that is not a concatenation. Its
start and its accepting state are two different states of its table. All moves lead to states of the
table other than the start, no move leads out of the accepting state, and every state has no move,
one that reads a symbol, or one or two silent ones. -/
theorem shape_ofRegex (r : Regex) :
    (ofRegex r).size = 2 * (r.nodes.countP fun node => !node.isCat) ∧
    (ofRegex r).start ≠ (ofRegex r).accept ∧ (ofRegex r).start < (ofRegex r).size ∧
    (ofRegex r).accept < (ofRegex r).size ∧
    (∀ s, ∀ t ∈ ((ofRegex r).movesFrom s).targets,
      t ≠ (ofRegex r).start ∧ t < (ofRegex r).size) ∧
    (ofRegex r).movesFrom (ofRegex r).accept = {} ∧
    ∀ s < (ofRegex r).size, ((ofRegex r).movesFrom s).Elementary := by
  have hcount := r.two_le_stateCount
  have hlast := r.lastState_add_one 0
  rw [size_ofRegex, accept_ofRegex, show (ofRegex r).start = 0 from rfl]
  refine ⟨r.stateCount_eq, by omega, by omega, by omega, fun s t ht => ?_, ?_, fun s _ => ?_⟩
  · have hbetween := between_of_mem_targets ht
    omega
  · exact movesFrom_lastState (holds_ofRegex r)
  · exact elementary_ofRegex r s

/-- The automaton of a repeated concatenation has eight states. The last state of the concatenation
leads back to its first and on to the accepting state. -/
theorem shape_ofRegex_eight :
    (ofRegex (.plus (.cat (.symbol 'a') (.star (.symbol 'b'))))).size = 8 ∧
      ((ofRegex (.plus (.cat (.symbol 'a') (.star (.symbol 'b'))))).movesFrom 6).targets = [1, 7] ∧
      1 ≠ (ofRegex (.plus (.cat (.symbol 'a') (.star (.symbol 'b'))))).start ∧
      (ofRegex (.plus (.cat (.symbol 'a') (.star (.symbol 'b'))))).movesFrom 7 = {} ∧
      ((ofRegex (.plus (.cat (.symbol 'a') (.star (.symbol 'b'))))).movesFrom 6).Elementary := by
  obtain ⟨hsize, -, -, -, hmoves, haccept, helementary⟩ :=
    shape_ofRegex (.plus (.cat (.symbol 'a') (.star (.symbol 'b'))))
  exact ⟨hsize, by decide, (hmoves 6 1 (by decide)).1, haccept, helementary 6 (by decide)⟩

end Nfa

end RegexEquiv
