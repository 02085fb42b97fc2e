import RegexEquiv.Nfa.Thompson
import RegexEquiv.Proofs.Nfa.Path

/-!
# Fragments in the table of an automaton

The fragment of an expression takes up a block of the table, and the blocks of its parts lie in it
one after another. Moves stay in the block of their fragment, or leave it from its last state by its
exits (`Regex.fragment_within`, `Nfa.movesFrom_lastState`), so the automaton of an expression is
closed (`Nfa.closed_ofRegex`). `Nfa.Holds` says that a table holds a block; the lemmas on the parts
of a fragment take it apart, one for each way to build an expression from others.
-/

namespace RegexEquiv

/-- Silent moves lead to exits or to states between `low` and `high`, moves that read to states
between them. -/
def Moves.Within (moves : Moves) (low high : Nat) (exits : List Nat) : Prop :=
  (∀ t ∈ moves.silent, t ∈ exits ∨ low < t ∧ t < high) ∧
    ∀ move ∈ moves.reading, low < move.2 ∧ move.2 < high

/-- The last state of a fragment has no moves but those to its exits. -/
theorem Moves.within_exits (low high : Nat) (exits : List Nat) :
    Moves.Within { silent := exits } low high exits :=
  ⟨fun _ ht => .inl ht, nofun⟩

/-- Moves stay within wider limits that take in the exits as well. -/
theorem Moves.Within.mono {moves : Moves} {low high low' high' : Nat} {exits exits' : List Nat}
    (h : moves.Within low high exits) (hlow : low' ≤ low) (hhigh : high ≤ high')
    (hexits : ∀ t ∈ exits, t ∈ exits' ∨ low' < t ∧ t < high') :
    moves.Within low' high' exits' := by
  obtain ⟨hsilent, hreading⟩ := h
  refine ⟨fun t ht => ?_, fun move hmove => ?_⟩
  · obtain hexit | hbetween := hsilent t ht
    · exact hexits t hexit
    · exact .inr (by omega)
  · have hbetween := hreading move hmove
    omega

namespace Regex

/-- Every fragment has a first and a last state. -/
theorem two_le_stateCount (r : Regex) : 2 ≤ r.stateCount := by
  induction r with
  | empty | epsilon | symbol => exact Nat.le_refl 2
  | cat left right ihl ihr | alt left right ihl ihr =>
      simp only [stateCount]
      omega
  | star inner ih | plus inner ih =>
      simp only [stateCount]
      omega

/-- The last state of a fragment. -/
def lastState (r : Regex) (first : Nat) : Nat := first + r.stateCount - 1

/-- The states behind a fragment start one behind its last. -/
theorem lastState_add_one (r : Regex) (first : Nat) :
    r.lastState first + 1 = first + r.stateCount := by
  have hcount := r.two_le_stateCount
  unfold lastState
  omega

theorem first_lt_lastState (r : Regex) (first : Nat) : first < r.lastState first := by
  have hcount := r.two_le_stateCount
  unfold lastState
  omega

theorem lastState_cat (left right : Regex) (first : Nat) :
    (cat left right).lastState first = right.lastState (first + left.stateCount) := by
  simp only [lastState, stateCount, Nat.add_assoc]

theorem lastState_alt (left right : Regex) (first : Nat) :
    (alt left right).lastState first = first + 1 + left.stateCount + right.stateCount := by
  simp only [lastState, stateCount]
  omega

theorem lastState_star (inner : Regex) (first : Nat) :
    (star inner).lastState first = first + 1 + inner.stateCount := by
  simp only [lastState, stateCount]
  omega

theorem lastState_plus (inner : Regex) (first : Nat) :
    (plus inner).lastState first = first + 1 + inner.stateCount := by
  simp only [lastState, stateCount]
  omega

/-- The silent moves of a fragment lead to its exits or behind its first state, and the moves that
read lead behind its first state. -/
theorem fragment_within (r : Regex) {first : Nat} {exits : List Nat} {moves : Moves}
    (h : moves ∈ r.fragment first exits) :
    moves.Within first (first + r.stateCount) exits := by
  induction r generalizing first exits with
  | empty | epsilon | symbol =>
      simp only [fragment, List.mem_cons, List.not_mem_nil, or_false] at h
      obtain rfl | rfl := h
      · simp [Moves.Within, stateCount]
      · exact Moves.within_exits _ _ exits
  | cat left right ihl ihr =>
      have hleft := left.two_le_stateCount
      have hright := right.two_le_stateCount
      simp only [stateCount]
      obtain h | h := List.mem_append.1 h
      · refine (ihl h).mono (Nat.le_refl _) (by omega) fun t ht => .inr ?_
        obtain rfl := List.mem_singleton.1 ht
        omega
      · exact (ihr h).mono (by omega) (by omega) fun t ht => .inl ht
  | alt left right ihl ihr =>
      have hleft := left.two_le_stateCount
      have hright := right.two_le_stateCount
      simp only [stateCount]
      simp only [fragment, List.mem_cons, List.mem_append, List.not_mem_nil, or_false] at h
      obtain rfl | (h | h) | rfl := h
      · simp [Moves.Within]
        omega
      · refine (ihl h).mono (by omega) (by omega) fun t ht => .inr ?_
        obtain rfl := List.mem_singleton.1 ht
        omega
      · refine (ihr h).mono (by omega) (by omega) fun t ht => .inr ?_
        obtain rfl := List.mem_singleton.1 ht
        omega
      · exact Moves.within_exits _ _ exits
  | star inner ih | plus inner ih =>
      simp only [stateCount]
      simp only [fragment, List.mem_cons, List.mem_append, List.not_mem_nil, or_false] at h
      obtain rfl | h | rfl := h
      · refine ⟨fun t ht => .inr ?_, fun move hmove => ?_⟩
        · simp only [List.mem_cons, List.not_mem_nil, or_false] at ht
          omega
        · cases hmove
      · refine (ih h).mono (by omega) (by omega) fun t ht => .inr ?_
        simp only [List.mem_cons, List.not_mem_nil, or_false] at ht
        omega
      · exact Moves.within_exits _ _ exits

end Regex

namespace Nfa

variable {n : Nfa}

/-! ## Blocks of the table -/

/-- The table holds a block of moves from state `first` on. -/
def Holds (n : Nfa) (first : Nat) (block : List Moves) : Prop :=
  ∀ (i : Nat) (moves : Moves), block[i]? = some moves → n.movesFrom (first + i) = moves

theorem holds_nil (n : Nfa) (first : Nat) : n.Holds first [] := nofun

theorem holds_cons_iff {first : Nat} {moves : Moves} {block : List Moves} :
    n.Holds first (moves :: block) ↔ n.movesFrom first = moves ∧ n.Holds (first + 1) block := by
  constructor
  · intro h
    refine ⟨h 0 moves rfl, fun i m hm => ?_⟩
    rw [Nat.add_assoc, Nat.add_comm 1 i]
    exact h (i + 1) m hm
  · intro h i m hm
    obtain ⟨hfirst, hrest⟩ := h
    cases i with
    | zero => exact hfirst.trans (Option.some.inj hm)
    | succ i =>
        rw [Nat.add_comm i 1, ← Nat.add_assoc]
        exact hrest i m hm

theorem holds_append_iff {first : Nat} {block more : List Moves} :
    n.Holds first (block ++ more) ↔
      n.Holds first block ∧ n.Holds (first + block.length) more := by
  induction block generalizing first with
  | nil => simp [holds_nil]
  | cons moves block ih =>
      simp only [List.cons_append, holds_cons_iff, ih, List.length_cons, and_assoc]
      rw [Nat.add_assoc, Nat.add_comm 1]

/-- The automaton of an expression holds its fragment. -/
theorem holds_ofRegex (r : Regex) : (ofRegex r).Holds 0 (r.fragment 0 []) := by
  intro i moves h
  simp [movesFrom, ofRegex, h]

/-! ## The parts of a fragment -/

section Parts

variable {left right inner : Regex} {first : Nat} {exits : List Nat}

theorem holds_cat (h : n.Holds first ((Regex.cat left right).fragment first exits)) :
    n.Holds first (left.fragment first [first + left.stateCount]) ∧
      n.Holds (first + left.stateCount) (right.fragment (first + left.stateCount) exits) := by
  simpa only [Regex.fragment, holds_append_iff, Regex.fragment_length] using h

theorem holds_alt (h : n.Holds first ((Regex.alt left right).fragment first exits)) :
    n.movesFrom first = { silent := [first + 1, first + 1 + left.stateCount] } ∧
      n.Holds (first + 1)
        (left.fragment (first + 1) [(Regex.alt left right).lastState first]) ∧
      n.Holds (first + 1 + left.stateCount)
        (right.fragment (first + 1 + left.stateCount) [(Regex.alt left right).lastState first]) ∧
      n.movesFrom ((Regex.alt left right).lastState first) = { silent := exits } := by
  have hlast := Regex.lastState_alt left right first
  simp only [Regex.fragment, holds_cons_iff, holds_append_iff, Regex.fragment_length,
    List.length_append] at h
  obtain ⟨hfirst, ⟨hleft, hright⟩, hexits, -⟩ := h
  rw [← Nat.add_assoc, ← hlast] at hexits
  rw [hlast] at hexits ⊢
  exact ⟨hfirst, hleft, hright, hexits⟩

theorem holds_star (h : n.Holds first ((Regex.star inner).fragment first exits)) :
    n.movesFrom first = { silent := [first + 1, (Regex.star inner).lastState first] } ∧
      n.Holds (first + 1)
        (inner.fragment (first + 1) [first + 1, (Regex.star inner).lastState first]) ∧
      n.movesFrom ((Regex.star inner).lastState first) = { silent := exits } := by
  simp only [Regex.fragment, holds_cons_iff, holds_append_iff, Regex.fragment_length] at h
  obtain ⟨hfirst, hinner, hexits, -⟩ := h
  rw [Regex.lastState_star]
  exact ⟨hfirst, hinner, hexits⟩

theorem holds_plus (h : n.Holds first ((Regex.plus inner).fragment first exits)) :
    n.movesFrom first = { silent := [first + 1] } ∧
      n.Holds (first + 1)
        (inner.fragment (first + 1) [first + 1, (Regex.plus inner).lastState first]) ∧
      n.movesFrom ((Regex.plus inner).lastState first) = { silent := exits } := by
  simp only [Regex.fragment, holds_cons_iff, holds_append_iff, Regex.fragment_length] at h
  obtain ⟨hfirst, hinner, hexits, -⟩ := h
  rw [Regex.lastState_plus]
  exact ⟨hfirst, hinner, hexits⟩

end Parts

/-- The last state of a fragment leads to its exits. -/
theorem movesFrom_lastState {r : Regex} {first : Nat} {exits : List Nat}
    (h : n.Holds first (r.fragment first exits)) :
    n.movesFrom (r.lastState first) = { silent := exits } := by
  induction r generalizing first exits with
  | empty | epsilon | symbol => exact h 1 _ rfl
  | cat left right _ ihr =>
      rw [Regex.lastState_cat]
      exact ihr (holds_cat h).2
  | alt left right => exact (holds_alt h).2.2.2
  | star inner => exact (holds_star h).2.2
  | plus inner => exact (holds_plus h).2.2

/-! ## The automaton of an expression -/

/-- The accepting state of the automaton of an expression is the last of its fragment. -/
theorem accept_ofRegex (r : Regex) : (ofRegex r).accept = r.lastState 0 := by
  simp [ofRegex, Regex.lastState]

/-- The accepting state of the automaton of an expression is in its table. -/
theorem accept_lt_size_ofRegex (r : Regex) : (ofRegex r).accept < (ofRegex r).size := by
  have hlast := r.lastState_add_one 0
  rw [accept_ofRegex, size_ofRegex]
  omega

/-- A state of the automaton of an expression has the moves of a state of its fragment, or none. -/
theorem movesFrom_ofRegex (r : Regex) (s : Nat) :
    (ofRegex r).movesFrom s = {} ∨ (ofRegex r).movesFrom s ∈ r.fragment 0 [] := by
  unfold movesFrom
  cases hget : (ofRegex r).moves[s]? with
  | none => exact .inl rfl
  | some moves => exact .inr (by simpa [ofRegex] using Array.mem_of_getElem? hget)

/-- The moves of the automaton of an expression lead to states behind its first. -/
theorem within_ofRegex (r : Regex) (s : Nat) :
    ((ofRegex r).movesFrom s).Within 0 r.stateCount [] := by
  obtain hnone | hmem := movesFrom_ofRegex r s
  · rw [hnone]
    exact Moves.within_exits 0 r.stateCount []
  · simpa using r.fragment_within hmem

/-- The moves of the automaton of an expression stay within its table. -/
theorem closed_ofRegex (r : Regex) : (ofRegex r).Closed := by
  have hcount := r.two_le_stateCount
  refine ⟨?_, fun s t ht => ?_, fun s move hmove => ?_⟩
  · show 0 < (ofRegex r).size
    rw [size_ofRegex]
    omega
  · rw [size_ofRegex]
    obtain hexit | hbetween := (within_ofRegex r s).1 t ht
    · cases hexit
    · exact hbetween.2
  · rw [size_ofRegex]
    exact ((within_ofRegex r s).2 move hmove).2

end Nfa

end RegexEquiv
