import Mathlib.Data.List.Sublists
import RegexEquiv.Dfa.Subset
import RegexEquiv.Proofs.Dfa.Run
import RegexEquiv.Proofs.Except
import RegexEquiv.Proofs.Nfa.Path

/-!
# The language of a determinised automaton

After a word over the alphabet, the deterministic automaton is in the state whose number is that of
the set of states in which the nondeterministic one can be (`Dfa.run?_ofSubsets`). A set that has
been found has a row of its own; the empty set has none and takes the number of the sink, which is
there whenever some row needs it. So the automaton is total (`Dfa.isTotal_ofNfa`) and accepts the
words over the alphabet that the nondeterministic automaton accepts (`Dfa.accepts_ofNfa`).
-/

namespace RegexEquiv

theorem SortedSet.isEmpty_eq_false_iff {α : Type} [Ord α] {s : SortedSet α} :
    s.isEmpty = false ↔ ∃ a, a ∈ s := by
  obtain ⟨l, hl⟩ := s
  cases l with
  | nil => exact ⟨nofun, fun h => nomatch h.choose_spec⟩
  | cons a l => exact ⟨fun _ => ⟨a, List.mem_cons_self⟩, fun _ => rfl⟩

theorem SortedSet.eq_empty_of_isEmpty {α : Type} [Ord α] {s : SortedSet α}
    (h : s.isEmpty = true) : s = ∅ :=
  SortedSet.ext (List.isEmpty_iff.1 h)

namespace Nfa

variable {n : Nfa} {alphabet : Alphabet} {limits : Limits} {found : Discovery StateSet Char}

/-- Before anything is read, the automaton can be in its start state. -/
theorem start_mem_initial (h : n.Closed) : n.start ∈ n.initial :=
  (mem_closure h).2 ⟨n.start, List.mem_singleton.2 rfl, .refl n n.start⟩

/-- A run that has died stays dead. -/
theorem advance_empty (h : n.Closed) (c : Char) : n.advance ∅ c = ∅ := by
  refine SortedSet.ext_mem fun x => ?_
  simp [mem_advance h]

/-! ## The graph of sets -/

/-- An edge between sets is what a run does on a symbol of the alphabet, unless it dies. -/
theorem mem_subsetGraph_edges_iff {X Y : StateSet} {c : Char} :
    (c, Y) ∈ (n.subsetGraph alphabet).edges X ↔
      c ∈ alphabet ∧ n.advance X c = Y ∧ Y.isEmpty = false := by
  simp only [subsetGraph, List.mem_filter, List.mem_map, Prod.mk.injEq, Bool.not_eq_true']
  constructor
  · intro h
    obtain ⟨⟨c, hc, rfl, rfl⟩, hlive⟩ := h
    exact ⟨hc, rfl, hlive⟩
  · intro h
    obtain ⟨hc, rfl, hlive⟩ := h
    exact ⟨⟨c, hc, rfl, rfl⟩, hlive⟩

/-- A word leads to a set exactly when it is a word over the alphabet, after which a run is in that
set and alive. -/
theorem access_subsetGraph_iff (h : n.Closed) {w : Word} {X : StateSet} :
    (n.subsetGraph alphabet).Access [n.initial] w X ↔
      Word.Over alphabet w ∧ n.run w = X ∧ X.isEmpty = false := by
  have hinitial : n.initial.isEmpty = false :=
    SortedSet.isEmpty_eq_false_iff.2 ⟨n.start, start_mem_initial h⟩
  constructor
  · intro haccess
    induction haccess with
    | start hX =>
        obtain rfl := List.mem_singleton.1 hX
        exact ⟨Word.over_nil _, rfl, hinitial⟩
    | step _ hedge ih =>
        obtain ⟨hover, rfl, -⟩ := ih
        obtain ⟨hc, rfl, hlive⟩ := mem_subsetGraph_edges_iff.1 hedge
        exact ⟨Word.over_concat_iff.2 ⟨hover, hc⟩, run_concat n _ _, hlive⟩
  · intro hrun
    obtain ⟨hover, rfl, hlive⟩ := hrun
    induction w using List.reverseRecOn with
    | nil => exact .start (List.mem_singleton.2 rfl)
    | append_singleton w c ih =>
        obtain ⟨hw, hc⟩ := Word.over_concat_iff.1 hover
        rw [run_concat] at hlive ⊢
        have hbefore : (n.run w).isEmpty = false := by
          cases hempty : (n.run w).isEmpty with
          | false => rfl
          | true =>
              rw [SortedSet.eq_empty_of_isEmpty hempty, advance_empty h] at hlive
              cases hlive
        exact (ih hw hbefore).step (mem_subsetGraph_edges_iff.2 ⟨hc, rfl, hlive⟩)

/-- After every word, a run is in one of the sets of states of the table. -/
theorem run_mem_sublists (h : n.Closed) (w : Word) :
    n.run w ∈ (List.range n.size).sublists.map .ofList := by
  refine List.mem_map.2 ⟨(List.range n.size).filter (· ∈ n.run w), by simp, ?_⟩
  refine SortedSet.ext_mem fun x => ?_
  rw [SortedSet.mem_ofList, List.mem_filter, List.mem_range, decide_eq_true_iff,
    and_iff_right_iff_imp]
  exact fun hx => ((mem_run h).1 hx).lt_size h h.start

/-- There are no more sets of states than the search allows for. -/
theorem subsetGraph_fits (h : n.Closed) : (n.subsetGraph alphabet).Fits [n.initial] := by
  refine ⟨(List.range n.size).sublists.map .ofList, by simp [subsetGraph], fun w X haccess => ?_⟩
  obtain ⟨-, rfl, -⟩ := (access_subsetGraph_iff h).1 haccess
  exact run_mem_sublists h w

/-- The sets found are those of the runs over the alphabet that are alive. -/
theorem mem_nodes_subsets (h : n.Closed) (hfound : n.subsets alphabet limits = .ok found)
    {X : StateSet} :
    X ∈ found.nodes ↔ ∃ w, Word.Over alphabet w ∧ n.run w = X ∧ X.isEmpty = false := by
  rw [Graph.mem_nodes_of_search (subsetGraph_fits h) hfound]
  simp only [access_subsetGraph_iff h]

/-- The empty set is not among the sets found. -/
theorem empty_not_mem_subsets (h : n.Closed) (hfound : n.subsets alphabet limits = .ok found) :
    ∅ ∉ found.nodes := by
  intro hmem
  obtain ⟨w, -, -, hlive⟩ := (mem_nodes_subsets h hfound).1 hmem
  cases hlive

/-- After a word over the alphabet, a run is in a set that has been found, or dead. -/
theorem run_mem_or_empty (h : n.Closed) (hfound : n.subsets alphabet limits = .ok found)
    {w : Word} (hw : Word.Over alphabet w) : n.run w ∈ found.nodes ∨ n.run w = ∅ := by
  cases hempty : (n.run w).isEmpty with
  | true => exact .inr (SortedSet.eq_empty_of_isEmpty hempty)
  | false => exact .inl ((mem_nodes_subsets h hfound).2 ⟨w, hw, rfl, hempty⟩)

/-- The set before anything is read is found first. -/
theorem number_initial (h : n.Closed) (hfound : n.subsets alphabet limits = .ok found) :
    found.nodes[0]? = some n.initial := by
  have hhead := Graph.head?_nodes_of_search (subsetGraph_fits h) hfound
  rwa [List.head?_cons, List.head?_eq_getElem?] at hhead

/-- Without a budget the search for sets ends. -/
theorem exists_subsets (alphabet : Alphabet) (h : n.Closed) (hlimits : limits.dfaStates = none) :
    ∃ found, n.subsets alphabet limits = .ok found := by
  refine Graph.exists_search_eq_ok (subsetGraph_fits h) fun count _ => ?_
  exact Stage.allow_none (show Stage.determinization.limit? limits = none from hlimits) count

end Nfa

namespace Dfa

variable {n : Nfa} {alphabet : Alphabet} {limits : Limits} {found : Discovery StateSet Char}
  {d : Dfa}

/-! ## The table -/

/-- Whether a run dies in one of the sets that a search has found. -/
def needsSink (n : Nfa) (alphabet : Alphabet) (found : Discovery StateSet Char) : Bool :=
  (found.nodes.map (subsetState n alphabet found)).any fun state => state.next.contains found.size

/-- The automaton of the sets that a search has found, with a sink if one is needed. -/
def ofSubsets (n : Nfa) (alphabet : Alphabet) (found : Discovery StateSet Char) : Dfa where
  alphabet := alphabet
  start := 0
  states := (found.nodes.map (subsetState n alphabet found) ++
    if needsSink n alphabet found then [sink alphabet found.size] else []).toArray

/-- Determinisation is the search for sets, and then the budget is asked once more if a sink is
needed. -/
theorem ofNfa_eq : ofNfa n alphabet limits = n.subsets alphabet limits >>= fun found =>
    if needsSink n alphabet found then
      (Stage.determinization.allow limits found.size).map fun _ => ofSubsets n alphabet found
    else .ok (ofSubsets n alphabet found) := by
  unfold ofNfa
  congr 1
  funext found
  change (if needsSink n alphabet found then _ else _) = _
  unfold ofSubsets
  by_cases hsink : needsSink n alphabet found = true
  · rw [if_pos hsink, if_pos hsink, if_pos hsink]
    cases Stage.determinization.allow limits found.size <;> rfl
  · rw [if_neg hsink, if_neg hsink, if_neg hsink, List.append_nil]
    rfl

/-- Determinisation succeeds when the search for sets does and the budget has room for the sink, if
one is needed. It gives the automaton of the sets found. -/
theorem ofNfa_eq_ok_iff : ofNfa n alphabet limits = .ok d ↔
    ∃ found, n.subsets alphabet limits = .ok found ∧
      (needsSink n alphabet found = true →
        Stage.determinization.allow limits found.size = .ok ()) ∧
      ofSubsets n alphabet found = d := by
  rw [ofNfa_eq, Except.bind_eq_ok_iff]
  refine exists_congr fun found => and_congr_right fun _ => ?_
  by_cases hsink : needsSink n alphabet found = true
  · rw [if_pos hsink, Except.map_eq_ok_iff]
    constructor
    · intro h
      obtain ⟨_, hallow, hd⟩ := h
      exact ⟨fun _ => hallow, hd⟩
    · intro h
      exact ⟨(), h.1 hsink, h.2⟩
  · rw [if_neg hsink, Except.ok.injEq]
    constructor
    · intro h
      exact ⟨fun hneeds => absurd hneeds hsink, h⟩
    · intro h
      exact h.2

/-- A set that has been found has a state of its own. -/
theorem states_ofSubsets {X : StateSet} {i : Nat} (hX : found.nodes[i]? = some X) :
    (ofSubsets n alphabet found).states[i]? = some (subsetState n alphabet found X) := by
  have hi : i < found.nodes.length := (List.getElem?_eq_some_iff.1 hX).1
  rw [ofSubsets, List.getElem?_toArray, List.getElem?_append_left (by simpa using hi),
    List.getElem?_map, hX]
  rfl

theorem size_ofSubsets : (ofSubsets n alphabet found).size =
    found.size + if needsSink n alphabet found then 1 else 0 := by
  unfold ofSubsets size
  split <;> simp

/-- There is a state behind those of the sets found exactly when a sink is needed. -/
theorem size_lt_size_iff : found.size < (ofSubsets n alphabet found).size ↔
    needsSink n alphabet found = true := by
  rw [size_ofSubsets]
  split
  · rename_i hsink
    exact iff_of_true (Nat.lt_succ_self _) hsink
  · rename_i hsink
    exact iff_of_false (Nat.lt_irrefl _) hsink

/-- A state behind those of the sets found is the sink. -/
theorem states_sink (h : found.size < (ofSubsets n alphabet found).size) :
    (ofSubsets n alphabet found).states[found.size]? = some (sink alphabet found.size) := by
  rw [ofSubsets, if_pos (size_lt_size_iff.1 h), List.getElem?_toArray,
    List.getElem?_append_right (by simp)]
  simp

/-- What a run does in a set that has been found leads to a state of the table. -/
theorem number_advance_lt {X : StateSet} {c : Char} (hX : X ∈ found.nodes) (hc : c ∈ alphabet) :
    found.number (n.advance X c) < (ofSubsets n alphabet found).size := by
  rw [size_ofSubsets]
  by_cases hmem : n.advance X c ∈ found.nodes
  · have hlt := Discovery.number_lt_iff.2 hmem
    omega
  · have hnumber := Discovery.number_of_not_mem hmem
    have hsink : needsSink n alphabet found = true := by
      simp only [needsSink, List.any_eq_true, List.mem_map, List.contains_iff_mem]
      exact ⟨_, ⟨X, hX, rfl⟩, List.mem_map.2 ⟨c, hc, hnumber⟩⟩
    rw [hnumber, if_pos hsink]
    omega

/-- A step of the automaton goes from the number of a set to the number of the next. -/
theorem next?_ofSubsets {X : StateSet} {c : Char} (hempty : n.advance ∅ c = ∅)
    (hnone : ∅ ∉ found.nodes) (hX : X ∈ found.nodes ∨ X = ∅)
    (hlt : found.number X < (ofSubsets n alphabet found).size) (hc : c ∈ alphabet) :
    (ofSubsets n alphabet found).next? (found.number X) c =
      some (found.number (n.advance X c)) := by
  obtain ⟨column, hcolumn⟩ := List.mem_iff_getElem?.1 hc
  refine next?_eq_some_iff.2 ⟨column, hcolumn, ?_⟩
  obtain hX | rfl := hX
  · obtain ⟨i, hi⟩ := List.mem_iff_getElem?.1 hX
    rw [Discovery.number_of_getElem? hi, row_of_getElem? (states_ofSubsets hi), subsetState,
      List.getElem?_map, hcolumn]
    rfl
  · have hnumber := Discovery.number_of_not_mem hnone
    rw [hnumber] at hlt
    rw [hempty, hnumber, row_of_getElem? (states_sink hlt), sink, List.getElem?_replicate, if_pos]
    exact (List.getElem?_eq_some_iff.1 hcolumn).1

/-! ## The language -/

/-- After a word over the alphabet, the automaton is in the state of the set in which the
nondeterministic one can be, and that state is in the table. -/
theorem run?_ofSubsets (h : n.Closed) (hfound : n.subsets alphabet limits = .ok found) {w : Word}
    (hw : Word.Over alphabet w) :
    (ofSubsets n alphabet found).run? w = some (found.number (n.run w)) ∧
      found.number (n.run w) < (ofSubsets n alphabet found).size := by
  induction w using List.reverseRecOn with
  | nil =>
      have hinitial := Nfa.number_initial h hfound
      have hmem := List.mem_of_getElem? hinitial
      have hlt := Discovery.number_lt_iff.2 hmem
      show some 0 = some (found.number n.initial) ∧ found.number n.initial < _
      rw [size_ofSubsets, Discovery.number_of_getElem? hinitial]
      rw [Discovery.number_of_getElem? hinitial] at hlt
      exact ⟨rfl, by omega⟩
  | append_singleton w c ih =>
      obtain ⟨hw, hc⟩ := Word.over_concat_iff.1 hw
      obtain ⟨hrun, hlt⟩ := ih hw
      have hempty := Nfa.advance_empty h c
      have hlive := Nfa.run_mem_or_empty h hfound hw
      rw [Nfa.run_concat, run?_concat, hrun, Option.bind_some]
      refine ⟨next?_ofSubsets hempty (Nfa.empty_not_mem_subsets h hfound) hlive hlt hc, ?_⟩
      obtain hmem | hdead := hlive
      · exact number_advance_lt hmem hc
      · rw [hdead, hempty]
        rwa [hdead] at hlt

/-- The state of a set accepts if the set holds the accepting state. -/
theorem isAccepting_ofSubsets (h : n.Closed) (hfound : n.subsets alphabet limits = .ok found)
    {w : Word} (hw : Word.Over alphabet w) :
    (ofSubsets n alphabet found).isAccepting (found.number (n.run w)) = n.accepts w := by
  obtain hmem | hdead := Nfa.run_mem_or_empty h hfound hw
  · obtain ⟨i, hi⟩ := List.mem_iff_getElem?.1 hmem
    rw [Discovery.number_of_getElem? hi, isAccepting_of_getElem? (states_ofSubsets hi)]
    rfl
  · have hlt := (run?_ofSubsets h hfound hw).2
    have hnumber := Discovery.number_of_not_mem (Nfa.empty_not_mem_subsets h hfound)
    rw [hdead, hnumber] at hlt
    rw [Nfa.accepts, hdead, hnumber, isAccepting_of_getElem? (states_sink hlt)]
    rfl

/-- A determinised automaton accepts the words over its alphabet that the nondeterministic one
accepts. -/
theorem accepts_ofNfa (h : n.Closed) (hd : ofNfa n alphabet limits = .ok d) {w : Word} :
    d.accepts w = true ↔ Word.Over alphabet w ∧ n.accepts w = true := by
  obtain ⟨found, hfound, -, rfl⟩ := ofNfa_eq_ok_iff.1 hd
  constructor
  · intro haccepts
    have hw : Word.Over alphabet w := over_of_accepts haccepts
    rw [accepts_of_run? (run?_ofSubsets h hfound hw).1, isAccepting_ofSubsets h hfound hw]
      at haccepts
    exact ⟨hw, haccepts⟩
  · intro haccepts
    obtain ⟨hw, haccepts⟩ := haccepts
    rw [accepts_of_run? (run?_ofSubsets h hfound hw).1, isAccepting_ofSubsets h hfound hw]
    exact haccepts

/-- A determinised automaton keeps the alphabet over which it was made. -/
theorem alphabet_ofNfa (hd : ofNfa n alphabet limits = .ok d) : d.alphabet = alphabet := by
  obtain ⟨found, -, -, rfl⟩ := ofNfa_eq_ok_iff.1 hd
  rfl

theorem start_ofNfa (hd : ofNfa n alphabet limits = .ok d) : d.start = 0 := by
  obtain ⟨found, -, -, rfl⟩ := ofNfa_eq_ok_iff.1 hd
  rfl

/-- A sink that is needed is the state after some word over the alphabet: after a word that leads to
the row that needs it, and one symbol more. -/
theorem exists_run?_sink (h : n.Closed) (hfound : n.subsets alphabet limits = .ok found)
    (hsink : needsSink n alphabet found = true) :
    ∃ w, Word.Over alphabet w ∧ (ofSubsets n alphabet found).run? w = some found.size := by
  simp only [needsSink, List.any_eq_true, List.mem_map, List.contains_iff_mem] at hsink
  obtain ⟨_, ⟨X, hX, rfl⟩, hnext⟩ := hsink
  obtain ⟨c, hc, hnumber⟩ := List.mem_map.1 hnext
  obtain ⟨w, hw, rfl, -⟩ := (Nfa.mem_nodes_subsets h hfound).1 hX
  have hover : Word.Over alphabet (w ++ [c]) := Word.over_concat_iff.2 ⟨hw, hc⟩
  refine ⟨w ++ [c], hover, (run?_ofSubsets h hfound hover).1.trans (congrArg some ?_)⟩
  rw [Nfa.run_concat, hnumber]

/-- Every state of a determinised automaton, the sink among them, is that after some word. -/
theorem exists_run?_ofNfa (h : n.Closed) (hd : ofNfa n alphabet limits = .ok d) {s : Nat}
    (hs : s < d.size) : ∃ w, d.run? w = some s := by
  obtain ⟨found, hfound, -, rfl⟩ := ofNfa_eq_ok_iff.1 hd
  by_cases hfresh : s < found.size
  · rw [← Discovery.nodes_length] at hfresh
    obtain ⟨w, hw, hrun, -⟩ := (Nfa.mem_nodes_subsets h hfound).1 (List.getElem_mem hfresh)
    refine ⟨w, (run?_ofSubsets h hfound hw).1.trans (congrArg some ?_)⟩
    rw [hrun]
    exact Discovery.number_of_getElem? (List.getElem?_eq_getElem hfresh)
  · rw [size_ofSubsets] at hs
    split at hs
    · rename_i hsink
      obtain ⟨w, hw, hrun⟩ := exists_run?_sink h hfound hsink
      refine ⟨w, hrun.trans (congrArg some ?_)⟩
      omega
    · omega

/-- A determinised automaton is total. -/
theorem isTotal_ofNfa (h : n.Closed) (hd : ofNfa n alphabet limits = .ok d) :
    d.isTotal = true := by
  obtain ⟨found, hfound, -, rfl⟩ := ofNfa_eq_ok_iff.1 hd
  have hstart := (run?_ofSubsets h hfound (Word.over_nil alphabet)).2
  refine isTotal_iff.2 ⟨Nat.lt_of_le_of_lt (Nat.zero_le _) hstart, fun s hs => ?_⟩
  by_cases hfresh : s < found.size
  · rw [← Discovery.nodes_length] at hfresh
    have hX := List.getElem?_eq_getElem hfresh
    rw [row_of_getElem? (states_ofSubsets hX)]
    refine ⟨List.length_map _, fun t ht => ?_⟩
    obtain ⟨c, hc, rfl⟩ := List.mem_map.1 ht
    exact number_advance_lt (List.getElem_mem hfresh) hc
  · have hsink : s = found.size := by
      rw [size_ofSubsets] at hs
      split at hs <;> omega
    subst hsink
    rw [row_of_getElem? (states_sink hs)]
    refine ⟨List.length_replicate, fun t ht => ?_⟩
    rw [(List.mem_replicate.1 ht).2]
    exact hs

/-- Without a budget determinisation succeeds. -/
theorem exists_ofNfa (alphabet : Alphabet) (h : n.Closed) (hlimits : limits.dfaStates = none) :
    ∃ d, ofNfa n alphabet limits = .ok d := by
  obtain ⟨found, hfound⟩ := Nfa.exists_subsets alphabet h hlimits
  refine ⟨_, ofNfa_eq_ok_iff.2 ⟨found, hfound, fun _ => ?_, rfl⟩⟩
  exact Stage.allow_none (show Stage.determinization.limit? limits = none from hlimits) _

end Dfa

end RegexEquiv
