import RegexEquiv.Proofs.Dfa.Run
import RegexEquiv.Proofs.Search.Reach

/-!
# Lookups in the table

The functions on automata answer something even when a lookup misses the table. Here are the same
walks with lookups that fail when they miss it. On a total automaton none of them fails, whether a
column, a symbol or a word is looked up in a state of the table, or the states are searched for an
accepting one: `Dfa.inTable_of_isTotal`.
-/

namespace RegexEquiv.Dfa

/-- What is looked up in a table: the row of a state, or a column in it. -/
inductive Lookup where
  | row (state : Nat)
  | entry (state column : Nat)
deriving DecidableEq, Repr

/-- The row of a state, which must be in the table. -/
def lookupRow (d : Dfa) (state : Nat) : Except Lookup (List Nat) :=
  match d.states[state]? with
  | some found => .ok found.next
  | none => .error (.row state)

/-- The target of a state in a column, which must be in the table. -/
def lookupEntry (d : Dfa) (state column : Nat) : Except Lookup Nat := do
  let row ← d.lookupRow state
  match row[column]? with
  | some target => return target
  | none => .error (.entry state column)

/-- The target of a state for a symbol. Only a symbol of the alphabet has a column to look up. -/
def lookupNext (d : Dfa) (state : Nat) (c : Char) : Except Lookup (Option Nat) :=
  match d.alphabet.idxOf? c with
  | some column => (d.lookupEntry state column).map some
  | none => .ok none

/-- Whether a word leads from a state to an accepting one, by lookups up to the first symbol that is
not in the alphabet. -/
def lookupWord (d : Dfa) (state : Nat) : Word → Except Lookup Bool
  | [] => .ok (d.isAccepting state)
  | c :: w => do
      match ← d.lookupNext state c with
      | some target => d.lookupWord target w
      | none => return false

/-- `d.InTable` says that no lookup in a state of the automaton misses its table, and that each
gives what the functions on automata say. -/
structure InTable (d : Dfa) : Prop where
  entry : ∀ s < d.size, ∀ column < d.alphabet.size,
    ∃ t < d.size, d.lookupEntry s column = .ok t
  next : ∀ s < d.size, ∀ c, d.lookupNext s c = .ok (d.next? s c)
  accepts : ∀ w, d.lookupWord d.start w = .ok (d.accepts w)
  isEmpty : ∀ s ∈ (d.moveGraph.reach [d.start]).nodes, d.lookupRow s = .ok (d.row s)

variable {d : Dfa}

theorem lookupRow_eq_ok {s : Nat} (hs : s < d.size) : d.lookupRow s = .ok (d.row s) := by
  have hget : d.states[s]? = some d.states[s] := Array.getElem?_eq_getElem hs
  rw [lookupRow, hget, row_of_getElem? hget]

section Total

variable (h : d.isTotal = true)
include h

/-- A total automaton has an entry for every state and column, and the entry is a state. -/
theorem exists_lookupEntry {s column : Nat} (hs : s < d.size) (hcolumn : column < d.alphabet.size) :
    ∃ t < d.size, (d.row s)[column]? = some t ∧ d.lookupEntry s column = .ok t := by
  obtain ⟨hlength, hrow⟩ := (isTotal_iff.1 h).2 s hs
  have ht : (d.row s)[column]? = some (d.row s)[column] := List.getElem?_eq_getElem (by omega)
  refine ⟨_, hrow _ (List.mem_of_getElem? ht), ht, ?_⟩
  rw [lookupEntry, lookupRow_eq_ok hs]
  show (match (d.row s)[column]? with | some target => _ | none => _) = _
  rw [ht]
  rfl

theorem lookupNext_eq_ok {s : Nat} (hs : s < d.size) (c : Char) :
    d.lookupNext s c = .ok (d.next? s c) := by
  unfold lookupNext next?
  cases hcolumn : d.alphabet.idxOf? c with
  | none => rfl
  | some column =>
      have hlt : column < d.alphabet.size :=
        (List.getElem?_eq_some_iff.1 (SortedSet.get?_eq_some_iff.2 hcolumn)).1
      obtain ⟨t, -, ht, hentry⟩ := exists_lookupEntry h hs hlt
      show (d.lookupEntry s column).map some = .ok ((d.row s)[column]?)
      rw [hentry, ht]
      rfl

/-- Reading a word from a state of the table looks up entries of the table only. -/
theorem lookupWord_eq_ok {s : Nat} (hs : s < d.size) (w : Word) :
    d.lookupWord s w = .ok ((w.foldlM d.next? s).any d.isAccepting) := by
  induction w generalizing s with
  | nil => rfl
  | cons c w ih =>
      rw [lookupWord, lookupNext_eq_ok h hs, List.foldlM_cons]
      cases hnext : d.next? s c with
      | none => rfl
      | some t => exact ih (next?_lt h hs hnext)

/-- Moves of a total automaton stay in the table. -/
theorem lt_size_of_access {s : Nat} {trail : List Unit}
    (haccess : d.moveGraph.Access [d.start] trail s) : s < d.size := by
  induction haccess with
  | start hs =>
      obtain rfl := List.mem_singleton.1 hs
      exact (isTotal_iff.1 h).1
  | step _ hedge ih =>
      obtain ⟨t, ht, heq⟩ := List.mem_map.1 hedge
      obtain rfl := (Prod.mk.inj heq).2
      exact ((isTotal_iff.1 h).2 _ ih).2 t ht

theorem moveGraph_fits : d.moveGraph.Fits [d.start] :=
  ⟨List.range d.size, by rw [List.length_range]; exact Nat.le_refl _,
    fun _ _ haccess => List.mem_range.2 (lt_size_of_access h haccess)⟩

/-- No lookup in a total automaton misses its table. -/
theorem inTable_of_isTotal : d.InTable where
  entry s hs column hcolumn := by
    obtain ⟨t, ht, -, hentry⟩ := exists_lookupEntry h hs hcolumn
    exact ⟨t, ht, hentry⟩
  next s hs c := lookupNext_eq_ok h hs c
  accepts w := lookupWord_eq_ok h (isTotal_iff.1 h).1 w
  isEmpty s hs := by
    obtain ⟨trail, haccess⟩ := (Graph.mem_reach (moveGraph_fits h)).1 hs
    exact lookupRow_eq_ok (lt_size_of_access h haccess)

end Total

end RegexEquiv.Dfa
