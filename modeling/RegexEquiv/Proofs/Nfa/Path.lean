import Mathlib.Data.List.Induction
import RegexEquiv.Nfa.Basic
import RegexEquiv.Proofs.Search.Reach

/-!
# Paths of nondeterministic automata

A path is a sequence of moves, silent or reading, from one state to another. `Nfa.mem_run` says that
a run over a word holds exactly the states to which a path that reads the word leads, and
`Nfa.accepts_iff_leads` that a word is accepted when one leads to the accepting state. Both are
about automata that are closed, that is, whose moves stay within the table.
-/

namespace RegexEquiv.Nfa

/-- `n.Path k s w t` says that `k` moves lead from `s` to `t` and read the word `w`. -/
inductive Path (n : Nfa) : Nat → Nat → Word → Nat → Prop where
  | stay (s : Nat) : Path n 0 s [] s
  | silent {k s m t : Nat} {w : Word} :
      m ∈ (n.movesFrom s).silent → Path n k m w t → Path n (k + 1) s w t
  | read {k s m t : Nat} {c : Char} {w : Word} :
      (c, m) ∈ (n.movesFrom s).reading → Path n k m w t → Path n (k + 1) s (c :: w) t

/-- Some moves lead from `s` to `t` and read the word `w`. -/
def Leads (n : Nfa) (s : Nat) (w : Word) (t : Nat) : Prop := ∃ k, n.Path k s w t

/-- The start state and the targets of all moves are states of the table. -/
structure Closed (n : Nfa) : Prop where
  start : n.start < n.size
  silent : ∀ s, ∀ t ∈ (n.movesFrom s).silent, t < n.size
  reading : ∀ s, ∀ move ∈ (n.movesFrom s).reading, move.2 < n.size

variable {n : Nfa}

/-- Outside the table there is no move. -/
theorem movesFrom_of_size_le {s : Nat} (hs : n.size ≤ s) : n.movesFrom s = {} := by
  rw [movesFrom, Array.getElem?_eq_none hs]
  rfl

/-! ## Joining and splitting paths -/

theorem Leads.refl (n : Nfa) (s : Nat) : n.Leads s [] s := ⟨0, .stay s⟩

theorem Leads.silent {s m t : Nat} {w : Word} (hmove : m ∈ (n.movesFrom s).silent)
    (h : n.Leads m w t) : n.Leads s w t := by
  obtain ⟨k, hpath⟩ := h
  exact ⟨k + 1, .silent hmove hpath⟩

theorem Leads.read {s m t : Nat} {c : Char} {w : Word} (hmove : (c, m) ∈ (n.movesFrom s).reading)
    (h : n.Leads m w t) : n.Leads s (c :: w) t := by
  obtain ⟨k, hpath⟩ := h
  exact ⟨k + 1, .read hmove hpath⟩

/-- Paths join where one ends and the next begins. -/
theorem Leads.trans {s m t : Nat} {u v : Word} (hfirst : n.Leads s u m) (hsecond : n.Leads m v t) :
    n.Leads s (u ++ v) t := by
  obtain ⟨k, hpath⟩ := hfirst
  induction hpath with
  | stay => exact hsecond
  | silent hmove _ ih => exact .silent hmove (ih hsecond)
  | read hmove _ ih => exact .read hmove (ih hsecond)

/-- A path that reads a symbol between two words splits at the move that reads it. -/
theorem Leads.split {s t : Nat} {u v : Word} {c : Char} (h : n.Leads s (u ++ c :: v) t) :
    ∃ m m', n.Leads s u m ∧ (c, m') ∈ (n.movesFrom m).reading ∧ n.Leads m' v t := by
  obtain ⟨k, hpath⟩ := h
  generalize hword : u ++ c :: v = w at hpath
  induction hpath generalizing u with
  | stay => simp at hword
  | silent hmove _ ih =>
      obtain ⟨m, m', hleads, hread, hrest⟩ := ih hword
      exact ⟨m, m', .silent hmove hleads, hread, hrest⟩
  | @read k s m t d w hmove hpath ih =>
      cases u with
      | nil =>
          obtain ⟨rfl, rfl⟩ : c = d ∧ v = w := by simpa using hword
          exact ⟨s, m, .refl n s, hmove, ⟨k, hpath⟩⟩
      | cons x u =>
          obtain ⟨rfl, htail⟩ : x = d ∧ u ++ c :: v = w := by simpa using hword
          obtain ⟨q, q', hleads, hread, hrest⟩ := ih htail
          exact ⟨q, q', .read hmove hleads, hread, hrest⟩

/-- Paths stay within the table. -/
theorem Leads.lt_size (h : n.Closed) {s t : Nat} {w : Word} (hleads : n.Leads s w t)
    (hs : s < n.size) : t < n.size := by
  obtain ⟨k, hpath⟩ := hleads
  induction hpath with
  | stay => exact hs
  | silent hmove _ ih => exact ih (h.silent _ _ hmove)
  | read hmove _ ih => exact ih (h.reading _ _ hmove)

/-! ## Closures -/

/-- In the graph of silent moves, labels lead to a state exactly when a path without symbols
does. -/
theorem access_silentGraph_iff {starts : List Nat} {bound x : Nat} :
    (∃ w, (n.silentGraph bound).Access starts w x) ↔ ∃ s ∈ starts, n.Leads s [] x := by
  constructor
  · intro h
    obtain ⟨w, haccess⟩ := h
    induction haccess with
    | start hx => exact ⟨_, hx, .refl n _⟩
    | step _ hedge ih =>
        obtain ⟨s, hs, hleads⟩ := ih
        obtain ⟨m, hmove, heq⟩ := List.mem_map.1 hedge
        obtain rfl := (Prod.mk.inj heq).2
        exact ⟨s, hs, hleads.trans (.silent hmove (.refl n m))⟩
  · intro h
    obtain ⟨s, hs, k, hpath⟩ := h
    have hstart : ∃ w, (n.silentGraph bound).Access starts w s := ⟨[], .start hs⟩
    clear hs
    generalize hword : ([] : Word) = w at hpath
    induction hpath with
    | stay => exact hstart
    | silent hmove _ ih =>
        obtain ⟨w, haccess⟩ := hstart
        exact ih ⟨w ++ [()], haccess.step (List.mem_map_of_mem hmove)⟩ hword
    | read => cases hword

/-- A closure is searched in a graph that is as small as its bound promises. -/
theorem silentGraph_fits (h : n.Closed) (starts : List Nat) :
    (n.silentGraph starts.length).Fits starts := by
  refine ⟨List.range n.size ++ starts, by simp [silentGraph], fun w x haccess => ?_⟩
  cases haccess with
  | start hx => exact List.mem_append_right _ hx
  | step _ hedge =>
      obtain ⟨m, hmove, heq⟩ := List.mem_map.1 hedge
      obtain rfl := (Prod.mk.inj heq).2
      exact List.mem_append_left _ (List.mem_range.2 (h.silent _ m hmove))

/-- A closure holds exactly the states to which paths without symbols lead. -/
theorem mem_closure (h : n.Closed) {states : List Nat} {x : Nat} :
    x ∈ n.closure states ↔ ∃ s ∈ states, n.Leads s [] x := by
  rw [closure, Discovery.mem_nodeSet, Graph.mem_reach (silentGraph_fits h states),
    access_silentGraph_iff]

/-! ## Runs -/

/-- A step holds exactly the targets of moves that read the symbol. -/
theorem mem_step {states : StateSet} {c : Char} {x : Nat} :
    x ∈ n.step states c ↔ ∃ s ∈ states, (c, x) ∈ (n.movesFrom s).reading := by
  simp only [step, SortedSet.mem_ofList, List.mem_flatMap, SortedSet.mem_toList, readFrom,
    List.mem_map, List.mem_filter, decide_eq_true_eq]
  refine exists_congr fun s => and_congr_right fun _ => ?_
  constructor
  · intro h
    obtain ⟨⟨d, y⟩, ⟨hmove, rfl⟩, rfl⟩ := h
    exact hmove
  · intro h
    exact ⟨(c, x), ⟨h, rfl⟩, rfl⟩

/-- Reading a symbol is a move that reads it and then a path without symbols. -/
theorem mem_advance (h : n.Closed) {states : StateSet} {c : Char} {x : Nat} :
    x ∈ n.advance states c ↔
      ∃ s ∈ states, ∃ m, (c, m) ∈ (n.movesFrom s).reading ∧ n.Leads m [] x := by
  simp only [advance, mem_closure h, SortedSet.mem_toList, mem_step]
  constructor
  · intro hx
    obtain ⟨m, ⟨s, hs, hmove⟩, hleads⟩ := hx
    exact ⟨s, hs, m, hmove, hleads⟩
  · intro hx
    obtain ⟨s, hs, m, hmove, hleads⟩ := hx
    exact ⟨m, ⟨s, hs, hmove⟩, hleads⟩

/-- A run over one more symbol. -/
theorem run_concat (n : Nfa) (w : Word) (c : Char) : n.run (w ++ [c]) = n.advance (n.run w) c := by
  rw [run_append, List.foldl_cons, List.foldl_nil]

/-- A run holds exactly the states to which paths from the start lead that read the word. -/
theorem mem_run (h : n.Closed) {w : Word} {x : Nat} : x ∈ n.run w ↔ n.Leads n.start w x := by
  induction w using List.reverseRecOn generalizing x with
  | nil =>
      show x ∈ n.closure [n.start] ↔ _
      simp [mem_closure h]
  | append_singleton w c ih =>
      rw [run_concat, mem_advance h]
      constructor
      · intro hx
        obtain ⟨s, hs, m, hmove, hleads⟩ := hx
        exact (ih.1 hs).trans (.read hmove hleads)
      · intro hx
        obtain ⟨s, m, hleads, hmove, hrest⟩ := hx.split
        exact ⟨s, ih.2 hleads, m, hmove, hrest⟩

/-- A word is accepted exactly when a path that reads it leads from the start to the accepting
state. -/
theorem accepts_iff_leads (h : n.Closed) {w : Word} :
    n.accepts w = true ↔ n.Leads n.start w n.accept := by
  rw [accepts, SortedSet.contains, decide_eq_true_iff, mem_run h]

end RegexEquiv.Nfa
