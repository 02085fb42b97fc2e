import Mathlib.Data.List.Induction
import RegexEquiv.Dfa.Basic
import RegexEquiv.Proofs.Word.Order

/-!
# Runs of deterministic automata

A step of a run looks up the column of a symbol in the row of a state (`Dfa.next?_eq_some_iff`). A
total automaton has a run, inside its table, on every word over its alphabet and on no other:
`Dfa.run?_isSome_iff`.
-/

namespace RegexEquiv.Dfa

/-- The row of a state in the table. -/
theorem row_of_getElem? {d : Dfa} {s : Nat} {state : DfaState} (h : d.states[s]? = some state) :
    d.row s = state.next := by
  rw [row, h]
  rfl

theorem isAccepting_of_getElem? {d : Dfa} {s : Nat} {state : DfaState}
    (h : d.states[s]? = some state) : d.isAccepting s = state.accepting := by
  rw [isAccepting, h]
  rfl

/-- A step takes the target in the column of the symbol. -/
theorem next?_eq_some_iff {d : Dfa} {s t : Nat} {c : Char} :
    d.next? s c = some t ↔
      ∃ column : Nat, d.alphabet.toList[column]? = some c ∧ (d.row s)[column]? = some t := by
  simp only [next?, Option.bind_eq_bind, Option.bind_eq_some_iff,
    ← SortedSet.get?_eq_some_iff, SortedSet.get?]

/-- A run over one more symbol is a run with one more step. -/
theorem run?_concat (d : Dfa) (w : Word) (c : Char) :
    d.run? (w ++ [c]) = (d.run? w).bind fun s => d.next? s c := by
  simp [run?, List.foldlM_append]

/-- A run over one more symbol, taken apart. -/
theorem run?_concat_eq_some_iff {d : Dfa} {w : Word} {c : Char} {t : Nat} :
    d.run? (w ++ [c]) = some t ↔ ∃ s, d.run? w = some s ∧ d.next? s c = some t := by
  rw [run?_concat, Option.bind_eq_some_iff]

theorem run?_nil (d : Dfa) : d.run? [] = some d.start := rfl

/-- A word is accepted when its run ends in an accepting state. -/
theorem accepts_of_run? {d : Dfa} {w : Word} {s : Nat} (h : d.run? w = some s) :
    d.accepts w = d.isAccepting s := by
  simp [accepts, h]

/-- Only words over the alphabet have a run. -/
theorem over_of_run? {d : Dfa} {w : Word} {s : Nat} (h : d.run? w = some s) :
    Word.Over d.alphabet w := by
  induction w using List.reverseRecOn generalizing s with
  | nil => exact Word.over_nil _
  | append_singleton w c ih =>
      obtain ⟨t, ht, hnext⟩ := run?_concat_eq_some_iff.1 h
      obtain ⟨column, hc, -⟩ := next?_eq_some_iff.1 hnext
      exact Word.over_concat_iff.2 ⟨ih ht, List.mem_of_getElem? hc⟩

/-- Only words over the alphabet are accepted. -/
theorem over_of_accepts {d : Dfa} {w : Word} (h : d.accepts w = true) :
    Word.Over d.alphabet w := by
  unfold accepts at h
  cases hrun : d.run? w with
  | none => simp [hrun] at h
  | some s => exact over_of_run? hrun

/-! ## Total automata -/

/-- What it means to be total, row by row. -/
theorem isTotal_iff {d : Dfa} :
    d.isTotal = true ↔ d.start < d.size ∧ ∀ s < d.size,
      (d.row s).length = d.alphabet.size ∧ ∀ t ∈ d.row s, t < d.size := by
  simp only [isTotal, Bool.and_eq_true, decide_eq_true_eq, Array.all_eq_true, beq_iff_eq,
    List.all_eq_true]
  refine and_congr_right fun _ => forall_congr' fun s => forall_congr' fun hs => ?_
  have hget : d.states[s]? = some d.states[s] := Array.getElem?_eq_getElem hs
  rw [row_of_getElem? hget]

/-- A step of a total automaton stays in the table. -/
theorem next?_lt {d : Dfa} (h : d.isTotal = true) {s t : Nat} {c : Char} (hs : s < d.size)
    (hnext : d.next? s c = some t) : t < d.size := by
  obtain ⟨column, -, ht⟩ := next?_eq_some_iff.1 hnext
  exact ((isTotal_iff.1 h).2 s hs).2 t (List.mem_of_getElem? ht)

/-- A total automaton can take a step on every symbol of its alphabet. -/
theorem exists_next? {d : Dfa} (h : d.isTotal = true) {s : Nat} {c : Char} (hs : s < d.size)
    (hc : c ∈ d.alphabet) : ∃ t, d.next? s c = some t := by
  obtain ⟨column, hcolumn⟩ := List.mem_iff_getElem?.1 hc
  have hlt : column < (d.row s).length := by
    rw [((isTotal_iff.1 h).2 s hs).1]
    exact (List.getElem?_eq_some_iff.1 hcolumn).1
  exact ⟨_, next?_eq_some_iff.2 ⟨column, hcolumn, List.getElem?_eq_getElem hlt⟩⟩

/-- A run of a total automaton stays in the table. -/
theorem run?_lt {d : Dfa} (h : d.isTotal = true) {w : Word} {s : Nat} (hrun : d.run? w = some s) :
    s < d.size := by
  induction w using List.reverseRecOn generalizing s with
  | nil =>
      obtain rfl := Option.some.inj hrun
      exact (isTotal_iff.1 h).1
  | append_singleton w c ih =>
      obtain ⟨t, ht, hnext⟩ := run?_concat_eq_some_iff.1 hrun
      exact next?_lt h (ih ht) hnext

/-- A total automaton has a run on exactly the words over its alphabet. -/
theorem run?_isSome_iff {d : Dfa} (h : d.isTotal = true) {w : Word} :
    (∃ s, d.run? w = some s) ↔ Word.Over d.alphabet w := by
  constructor
  · intro hrun
    obtain ⟨s, hs⟩ := hrun
    exact over_of_run? hs
  · intro hover
    induction w using List.reverseRecOn with
    | nil => exact ⟨d.start, run?_nil d⟩
    | append_singleton w c ih =>
        obtain ⟨hw, hc⟩ := Word.over_concat_iff.1 hover
        obtain ⟨s, hs⟩ := ih hw
        obtain ⟨t, ht⟩ := exists_next? h (run?_lt h hs) hc
        exact ⟨t, run?_concat_eq_some_iff.2 ⟨s, hs, ht⟩⟩

end RegexEquiv.Dfa
