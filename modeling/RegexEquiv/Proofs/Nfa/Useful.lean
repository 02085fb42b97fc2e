import RegexEquiv.Proofs.Nfa.Shape

/-!
# States on the way to acceptance

A state is useful when it can be reached from the start and the accepting state can be reached from
it. The search along all moves finds exactly the states to which paths lead (`Nfa.mem_reachable`).
In the fragment of an expression in which `Regex.empty` does not occur, every state lies on a path
from the first state to the last (`Nfa.spans_fragment`), so the automaton of such an expression
has no useless state: `Nfa.useful_ofRegex`.
-/

namespace RegexEquiv.Nfa

variable {n : Nfa}

/-- `n.Reaches s t` says that some moves lead from `s` to `t`, whatever they read. -/
def Reaches (n : Nfa) (s t : Nat) : Prop := ∃ w, n.Leads s w t

/-- `n.Between first last s` says that `s` lies on a path from `first` to `last`. -/
def Between (n : Nfa) (first last s : Nat) : Prop := n.Reaches first s ∧ n.Reaches s last

theorem Reaches.refl (n : Nfa) (s : Nat) : n.Reaches s s := ⟨[], .refl n s⟩

theorem Reaches.trans {s m t : Nat} (hfirst : n.Reaches s m) (hsecond : n.Reaches m t) :
    n.Reaches s t := by
  obtain ⟨u, hu⟩ := hfirst
  obtain ⟨v, hv⟩ := hsecond
  exact ⟨u ++ v, hu.trans hv⟩

/-- Every move reaches its target. -/
theorem reaches_of_mem_targets {s t : Nat} (h : t ∈ (n.movesFrom s).targets) : n.Reaches s t := by
  obtain h | h := List.mem_append.1 h
  · exact ⟨[], .silent h (.refl n t)⟩
  · obtain ⟨⟨c, t⟩, hmove, rfl⟩ := List.mem_map.1 h
    exact ⟨[c], .read hmove (.refl n t)⟩

theorem reaches_of_silent {s t : Nat} {targets : List Nat}
    (hmoves : n.movesFrom s = { silent := targets }) (ht : t ∈ targets) : n.Reaches s t :=
  reaches_of_mem_targets (by simp [Moves.targets, hmoves, ht])

/-! ## The search along all moves -/

/-- In the graph of all moves, labels lead to a state exactly when some moves do. -/
theorem access_moveGraph_iff {starts : List Nat} {t : Nat} :
    (∃ trail, n.moveGraph.Access starts trail t) ↔ ∃ s ∈ starts, n.Reaches s t := by
  constructor
  · intro h
    obtain ⟨trail, haccess⟩ := h
    induction haccess with
    | start ht => exact ⟨_, ht, .refl n _⟩
    | step _ hedge ih =>
        obtain ⟨s, hs, hreaches⟩ := ih
        obtain ⟨m, hmove, heq⟩ := List.mem_map.1 hedge
        obtain rfl := (Prod.mk.inj heq).2
        exact ⟨s, hs, hreaches.trans (reaches_of_mem_targets hmove)⟩
  · intro h
    obtain ⟨s, hs, w, k, hpath⟩ := h
    -- The path may go on from any state already found, so only that is kept of its beginning.
    have hstart : ∃ trail, n.moveGraph.Access starts trail s := ⟨[], .start hs⟩
    clear hs
    have hstep : ∀ {s m}, m ∈ (n.movesFrom s).targets →
        (∃ trail, n.moveGraph.Access starts trail s) →
        ∃ trail, n.moveGraph.Access starts trail m := by
      intro s m hm haccess
      obtain ⟨trail, haccess⟩ := haccess
      exact ⟨trail ++ [()], haccess.step (List.mem_map_of_mem hm)⟩
    induction hpath with
    | stay => exact hstart
    | silent hmove _ ih => exact ih (hstep (List.mem_append_left _ hmove) hstart)
    | read hmove _ ih =>
        exact ih (hstep (List.mem_append_right _ (List.mem_map_of_mem hmove)) hstart)

/-- Moves stay in the table, so the search has room for all states. -/
theorem moveGraph_fits (h : n.Closed) : n.moveGraph.Fits [n.start] := by
  refine ⟨List.range n.size, by simp [moveGraph], fun trail t haccess => List.mem_range.2 ?_⟩
  obtain ⟨s, hs, w, hleads⟩ := access_moveGraph_iff.1 ⟨trail, haccess⟩
  obtain rfl := List.mem_singleton.1 hs
  exact hleads.lt_size h h.start

/-- The reachable states are those to which moves from the start lead. -/
theorem mem_reachable (h : n.Closed) {s : Nat} : s ∈ n.reachable ↔ n.Reaches n.start s := by
  rw [reachable, Discovery.mem_nodeSet, Graph.mem_reach (moveGraph_fits h), access_moveGraph_iff]
  simp

/-! ## The states of a fragment -/

/-- A state on a path is on every longer path. -/
theorem Between.prolong {first last first' last' s : Nat} (h : n.Between first last s)
    (hbefore : n.Reaches first' first) (hafter : n.Reaches last last') :
    n.Between first' last' s :=
  ⟨hbefore.trans h.1, h.2.trans hafter⟩

/-- Both ends of a path lie on it. -/
theorem Reaches.between {first last s : Nat} (h : n.Reaches first last)
    (hs : s = first ∨ s = last) : n.Between first last s := by
  obtain rfl | rfl := hs
  · exact ⟨.refl n s, h⟩
  · exact ⟨h, .refl n s⟩

/-- `n.Spans first last` says that every state from `first` to `last` lies on a path between these
two. -/
def Spans (n : Nfa) (first last : Nat) : Prop :=
  ∀ s, first ≤ s → s ≤ last → n.Between first last s

section Spans

variable {first middle middle' last : Nat}

theorem Spans.reaches (h : n.Spans first last) (hle : first ≤ last) : n.Reaches first last :=
  (h first (Nat.le_refl first) hle).2

/-- The ends are on a path if there is one, so only the states between them are left. -/
theorem Spans.of_inner (h : n.Reaches first last)
    (hinner : ∀ s, first < s → s < last → n.Between first last s) : n.Spans first last := by
  intro s hlow hhigh
  by_cases hends : s = first ∨ s = last
  · exact h.between hends
  · exact hinner s (by omega) (by omega)

/-- Two blocks, one behind the other. -/
theorem Spans.cat (hleft : n.Spans first middle) (hright : n.Spans (middle + 1) last)
    (hmove : n.Reaches middle (middle + 1)) (hfirst : first ≤ middle) (hlast : middle + 1 ≤ last) :
    n.Spans first last := by
  intro s hlow hhigh
  by_cases hs : s ≤ middle
  · exact (hleft s hlow hs).prolong (.refl n first) (hmove.trans (hright.reaches hlast))
  · exact (hright s (by omega) hhigh).prolong ((hleft.reaches hfirst).trans hmove) (.refl n last)

/-- Two blocks side by side, with a state before and a state behind them. -/
theorem Spans.alt (hleft : n.Spans (first + 1) middle) (hright : n.Spans (middle + 1) middle')
    (hfork : n.Reaches first (first + 1)) (hfork' : n.Reaches first (middle + 1))
    (hjoin : n.Reaches middle last) (hjoin' : n.Reaches middle' last) (hfirst : first + 1 ≤ middle)
    (hlast : last = middle' + 1) : n.Spans first last := by
  have hthrough : n.Reaches first last := hfork.trans ((hleft.reaches hfirst).trans hjoin)
  refine .of_inner hthrough fun s hlow hhigh => ?_
  by_cases hs : s ≤ middle
  · exact (hleft s hlow hs).prolong hfork hjoin
  · exact (hright s (by omega) (by omega)).prolong hfork' hjoin'

/-- A block with a state before and a state behind it. -/
theorem Spans.enclosed (h : n.Spans (first + 1) middle) (hbefore : n.Reaches first (first + 1))
    (hafter : n.Reaches middle last) (hfirst : first + 1 ≤ middle) (hlast : last = middle + 1) :
    n.Spans first last := by
  have hthrough : n.Reaches first last := hbefore.trans ((h.reaches hfirst).trans hafter)
  exact .of_inner hthrough fun s hlow hhigh => (h s hlow (by omega)).prolong hbefore hafter

end Spans

/-- In the fragment of an expression without `Regex.empty`, every state lies on a path from the
first to the last. -/
theorem spans_fragment {r : Regex} {first : Nat} {exits : List Nat}
    (h : n.Holds first (r.fragment first exits)) (hr : Regex.empty ∉ r.nodes) :
    n.Spans first (r.lastState first) := by
  -- The moves that a node adds lead to the first states of its parts and on from their last ones.
  induction r generalizing first exits with
  | empty => exact absurd (List.mem_singleton.2 rfl) hr
  | epsilon =>
      have hmoves := (holds_cons_iff.1 h).1
      refine .of_inner (reaches_of_silent hmoves (List.mem_singleton.2 rfl)) fun s hlow hhigh => ?_
      simp only [Regex.lastState, Regex.stateCount] at hhigh
      omega
  | symbol c =>
      have hmoves := (holds_cons_iff.1 h).1
      have hmove : n.Reaches first (first + 1) :=
        reaches_of_mem_targets (by simp [Moves.targets, hmoves])
      refine .of_inner hmove fun s hlow hhigh => ?_
      simp only [Regex.lastState, Regex.stateCount] at hhigh
      omega
  | cat left right ihl ihr =>
      simp only [Regex.nodes, List.mem_cons, List.mem_append, not_or] at hr
      obtain ⟨hleft, hright⟩ := holds_cat h
      have hlastl := left.lastState_add_one first
      have hfirstl := left.first_lt_lastState first
      have hfirstr := right.first_lt_lastState (first + left.stateCount)
      have hmoves := movesFrom_lastState hleft
      have hspanl := ihl hleft hr.2.1
      have hspanr := ihr hright hr.2.2
      rw [← hlastl] at hmoves hspanr hfirstr
      rw [Regex.lastState_cat, ← hlastl]
      exact hspanl.cat hspanr (reaches_of_silent hmoves (List.mem_singleton.2 rfl)) (by omega)
        (by omega)
  | alt left right ihl ihr =>
      simp only [Regex.nodes, List.mem_cons, List.mem_append, not_or] at hr
      obtain ⟨hfork, hleft, hright, -⟩ := holds_alt h
      have hlast := Regex.lastState_alt left right first
      have hlastl := left.lastState_add_one (first + 1)
      have hlastr := right.lastState_add_one (first + 1 + left.stateCount)
      have hfirstl := left.first_lt_lastState (first + 1)
      have hmovesl := movesFrom_lastState hleft
      have hmovesr := movesFrom_lastState hright
      have hspanl := ihl hleft hr.2.1
      have hspanr := ihr hright hr.2.2
      rw [← hlastl] at hspanr hfork hmovesr hlastr
      exact hspanl.alt hspanr (reaches_of_silent hfork (by simp))
        (reaches_of_silent hfork (by simp)) (reaches_of_silent hmovesl (by simp))
        (reaches_of_silent hmovesr (by simp)) (by omega) (by omega)
  | star inner ih =>
      simp only [Regex.nodes, List.mem_cons, not_or] at hr
      obtain ⟨hfork, hinner, -⟩ := holds_star h
      have hlast := inner.lastState_star first
      have hlasti := inner.lastState_add_one (first + 1)
      have hfirsti := inner.first_lt_lastState (first + 1)
      exact (ih hinner hr.2).enclosed (reaches_of_silent hfork (by simp))
        (reaches_of_silent (movesFrom_lastState hinner) (by simp)) (by omega) (by omega)
  | plus inner ih =>
      simp only [Regex.nodes, List.mem_cons, not_or] at hr
      obtain ⟨hfork, hinner, -⟩ := holds_plus h
      have hlast := inner.lastState_plus first
      have hlasti := inner.lastState_add_one (first + 1)
      have hfirsti := inner.first_lt_lastState (first + 1)
      exact (ih hinner hr.2).enclosed (reaches_of_silent hfork (by simp))
        (reaches_of_silent (movesFrom_lastState hinner) (by simp)) (by omega) (by omega)

/-- The automaton of an expression without `Regex.empty` has no useless state: all its states can be
reached from the start, and from all of them some moves lead to the accepting state. -/
theorem useful_ofRegex {r : Regex} (h : Regex.empty ∉ r.nodes) :
    (ofRegex r).reachable = .ofList (List.range (ofRegex r).size) ∧
      ∀ s < (ofRegex r).size, ∃ w, (ofRegex r).Leads s w (ofRegex r).accept := by
  have hclosed := closed_ofRegex r
  have hlast := r.lastState_add_one 0
  have hspans : ∀ s < (ofRegex r).size,
      (ofRegex r).Between (ofRegex r).start (r.lastState 0) s := by
    intro s hs
    rw [size_ofRegex] at hs
    exact spans_fragment (holds_ofRegex r) h s (Nat.zero_le s) (by omega)
  constructor
  · refine SortedSet.ext_mem fun s => ?_
    rw [mem_reachable hclosed, SortedSet.mem_ofList, List.mem_range]
    constructor
    · intro hreaches
      obtain ⟨w, hleads⟩ := hreaches
      exact hleads.lt_size hclosed hclosed.start
    · exact fun hs => (hspans s hs).1
  · rw [accept_ofRegex]
    exact fun s hs => (hspans s hs).2

/-- All eight states of the automaton of a repeated concatenation are reachable, and from the last
state of the loop in it, moves lead to the accepting state. Of the two states for `Regex.empty`, the
second is not reachable. -/
theorem useful_ofRegex_eight :
    Regex.empty ∉ (Regex.plus (.cat (.symbol 'a') (.star (.symbol 'b')))).nodes ∧
      (ofRegex (.plus (.cat (.symbol 'a') (.star (.symbol 'b'))))).reachable =
        .ofList [0, 1, 2, 3, 4, 5, 6, 7] ∧
      (∃ w, (ofRegex (.plus (.cat (.symbol 'a') (.star (.symbol 'b'))))).Leads 6 w 7) ∧
      (ofRegex .empty).size = 2 ∧ (ofRegex .empty).reachable = .ofList [0] := by
  have hempty : Regex.empty ∉ (Regex.plus (.cat (.symbol 'a') (.star (.symbol 'b')))).nodes := by
    decide
  obtain ⟨hreachable, haccept⟩ := useful_ofRegex hempty
  exact ⟨hempty, hreachable, haccept 6 (by decide), rfl, by decide +kernel⟩

end RegexEquiv.Nfa
