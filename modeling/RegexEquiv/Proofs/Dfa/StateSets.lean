import RegexEquiv.Proofs.Dfa.Subset
import RegexEquiv.Proofs.Nfa.Thompson
import RegexEquiv.Proofs.Search.Threshold

/-!
# The states of a determinised automaton

The states of a determinised automaton are the sets in which a run over the alphabet can be, one
state for each: two words lead to the same state exactly when they leave a run in the same set
(`Dfa.standsForSets_ofNfa`). The sink is the state of the empty set, and it is there exactly when
some word over the alphabet lets a run die (`Dfa.needsSink_iff`). `Dfa.states_ofNfa_ofRegex` says so
of the automata of expressions. The number of these states is the smallest budget within which the
automaton can be built, and within all larger budgets the same automaton is built:
`Dfa.ofNfa_ofRegex_budget`.
-/

namespace RegexEquiv

namespace Nfa

variable {n : Nfa}

/-- The sets of states in which a run over an alphabet can be. The empty set is one of them if a run
can die. -/
def runSets (n : Nfa) (alphabet : Alphabet) : Set StateSet :=
  {X | ∃ w, Word.Over alphabet w ∧ n.run w = X}

/-- There are no more sets in which a run can be than sets of states. -/
theorem ncard_runSets_le (h : n.Closed) (alphabet : Alphabet) :
    (n.runSets alphabet).ncard ≤ 2 ^ n.size := by
  have hsets : ∀ X ∈ n.runSets alphabet, X ∈ (List.range n.size).sublists.map .ofList := by
    intro X hX
    obtain ⟨w, -, rfl⟩ := hX
    exact run_mem_sublists h w
  simpa using ncard_le_length hsets

end Nfa

namespace Dfa

variable {n : Nfa} {alphabet : Alphabet} {limits : Limits} {found : Discovery StateSet Char}
  {d : Dfa}

/-- `d.StandsForSets n alphabet` says that the states of `d` are the sets in which a run of `n` over
the alphabet can be, one state for each set, and that a state accepts if its set holds the accepting
state. -/
structure StandsForSets (d : Dfa) (n : Nfa) (alphabet : Alphabet) : Prop where
  same_iff : ∀ u v, Word.Over alphabet u → Word.Over alphabet v →
    (d.run? u = d.run? v ↔ n.run u = n.run v)
  reached : ∀ s < d.size, ∃ w, Word.Over alphabet w ∧ d.run? w = some s
  accepting_iff : ∀ w, Word.Over alphabet w → ∃ s < d.size, d.run? w = some s ∧
    (d.isAccepting s = true ↔ n.accept ∈ n.run w)
  size_eq : d.size = (n.runSets alphabet).ncard

/-! ## The sink -/

/-- Words after which a run is dead lead to the number of the sink, and no other words do. -/
theorem run?_eq_sink_iff (h : n.Closed) (hfound : n.subsets alphabet limits = .ok found) {w : Word}
    (hw : Word.Over alphabet w) :
    (ofSubsets n alphabet found).run? w = some found.size ↔ n.run w = ∅ := by
  have hempty := Nfa.empty_not_mem_subsets h hfound
  rw [(run?_ofSubsets h hfound hw).1, Option.some_inj]
  constructor
  · intro hnumber
    refine (Nfa.run_mem_or_empty h hfound hw).resolve_left fun hmem => ?_
    have hlt := Discovery.number_lt_iff.2 hmem
    omega
  · intro hdead
    rw [hdead, Discovery.number_of_not_mem hempty]

/-- A sink is needed exactly when some word over the alphabet lets a run die. -/
theorem needsSink_iff (h : n.Closed) (hfound : n.subsets alphabet limits = .ok found) :
    needsSink n alphabet found = true ↔ ∃ w, Word.Over alphabet w ∧ n.run w = ∅ := by
  constructor
  · intro hsink
    obtain ⟨w, hw, hrun⟩ := exists_run?_sink h hfound hsink
    exact ⟨w, hw, (run?_eq_sink_iff h hfound hw).1 hrun⟩
  · intro hdead
    obtain ⟨w, hw, hrun⟩ := hdead
    have hlt := (run?_ofSubsets h hfound hw).2
    rw [hrun, Discovery.number_of_not_mem (Nfa.empty_not_mem_subsets h hfound)] at hlt
    exact size_lt_size_iff.1 hlt

/-- The sink stands behind the states of the sets found exactly when some word over the alphabet
lets a run die. -/
theorem states_eq_sink_iff (h : n.Closed) (hfound : n.subsets alphabet limits = .ok found) :
    (ofSubsets n alphabet found).states[found.size]? = some (sink alphabet found.size) ↔
      ∃ w, Word.Over alphabet w ∧ n.run w = ∅ := by
  rw [← needsSink_iff h hfound, ← size_lt_size_iff]
  constructor
  · intro hstate
    exact (Array.getElem?_eq_some_iff.1 hstate).1
  · exact states_sink

/-! ## Sets and states -/

/-- Two words lead to the same state exactly when they leave a run in the same set. -/
theorem run?_eq_run?_iff (h : n.Closed) (hfound : n.subsets alphabet limits = .ok found)
    {u v : Word} (hu : Word.Over alphabet u) (hv : Word.Over alphabet v) :
    (ofSubsets n alphabet found).run? u = (ofSubsets n alphabet found).run? v ↔
      n.run u = n.run v := by
  rw [(run?_ofSubsets h hfound hu).1]
  obtain hmem | hdead := Nfa.run_mem_or_empty h hfound hu
  · rw [(run?_ofSubsets h hfound hv).1, Option.some_inj, Discovery.number_inj hmem]
  · rw [hdead, Discovery.number_of_not_mem (Nfa.empty_not_mem_subsets h hfound), eq_comm,
      run?_eq_sink_iff h hfound hv, eq_comm]

/-- The sets found are the sets in which a run can be, the empty one apart. -/
theorem mem_nodes_iff_mem_runSets (h : n.Closed) (hfound : n.subsets alphabet limits = .ok found)
    {X : StateSet} : X ∈ found.nodes ↔ X ∈ n.runSets alphabet ∧ X ≠ ∅ := by
  rw [Nfa.mem_nodes_subsets h hfound]
  constructor
  · intro hX
    obtain ⟨w, hw, rfl, hlive⟩ := hX
    refine ⟨⟨w, hw, rfl⟩, fun hdead => ?_⟩
    rw [hdead] at hlive
    cases hlive
  · intro hX
    obtain ⟨⟨w, hw, rfl⟩, hlive⟩ := hX
    exact ⟨w, hw, rfl, Bool.eq_false_iff.2 fun hdead =>
      hlive (SortedSet.eq_empty_of_isEmpty hdead)⟩

/-- There are as many states as sets in which a run can be. -/
theorem size_eq_ncard_runSets (h : n.Closed) (hfound : n.subsets alphabet limits = .ok found) :
    (ofSubsets n alphabet found).size = (n.runSets alphabet).ncard := by
  have hempty := Nfa.empty_not_mem_subsets h hfound
  rw [size_ofSubsets, ← Discovery.nodes_length]
  by_cases hsink : needsSink n alphabet found = true
  · have hmem : (∅ : StateSet) ∈ n.runSets alphabet := (needsSink_iff h hfound).1 hsink
    rw [if_pos hsink, ← List.length_cons (a := ∅)]
    refine (ncard_eq_length (List.nodup_cons.2 ⟨hempty, found.nodup_nodes⟩) fun X => ?_).symm
    rw [List.mem_cons, mem_nodes_iff_mem_runSets h hfound]
    by_cases hX : X = ∅
    · simp [hX, hmem]
    · simp [hX]
  · have hmem : (∅ : StateSet) ∉ n.runSets alphabet := mt (needsSink_iff h hfound).2 hsink
    rw [if_neg hsink, Nat.add_zero]
    refine (ncard_eq_length found.nodup_nodes fun X => ?_).symm
    rw [mem_nodes_iff_mem_runSets h hfound, and_iff_left_iff_imp]
    exact fun hX hdead => hmem (hdead ▸ hX)

/-- The states of a determinised automaton are the sets in which a run over the alphabet can be. -/
theorem standsForSets_ofNfa (h : n.Closed) (hd : ofNfa n alphabet limits = .ok d) :
    d.StandsForSets n alphabet := by
  obtain ⟨found, hfound, -, hstates⟩ := ofNfa_eq_ok_iff.1 hd
  refine ⟨fun u v hu hv => ?_, fun s hs => ?_, fun w hw => ?_, ?_⟩
  · rw [← hstates]
    exact run?_eq_run?_iff h hfound hu hv
  · obtain ⟨w, hrun⟩ := exists_run?_ofNfa h hd hs
    have hover := over_of_run? hrun
    rw [alphabet_ofNfa hd] at hover
    exact ⟨w, hover, hrun⟩
  · obtain ⟨hrun, hlt⟩ := run?_ofSubsets h hfound hw
    rw [← hstates]
    refine ⟨_, hlt, hrun, ?_⟩
    rw [isAccepting_ofSubsets h hfound hw, Nfa.accepts, SortedSet.contains, decide_eq_true_iff]
  · rw [← hstates]
    exact size_eq_ncard_runSets h hfound

/-- Without a budget, the automaton of an expression can be determinised over every alphabet. The
states are the sets in which a run over the alphabet can be, so there is at least one and there are
at most as many as sets of states. The empty set is that of the sink, which is there exactly when
some word over the alphabet lets a run die. -/
theorem states_ofNfa_ofRegex (r : Regex) (alphabet : Alphabet)
    (hlimits : limits.dfaStates = none) :
    ∃ found d, (Nfa.ofRegex r).subsets alphabet limits = .ok found ∧
      ofNfa (.ofRegex r) alphabet limits = .ok d ∧ d.StandsForSets (.ofRegex r) alphabet ∧
      1 ≤ d.size ∧ d.size ≤ 2 ^ (Nfa.ofRegex r).size ∧
      (∀ w, Word.Over alphabet w →
        (d.run? w = some found.size ↔ (Nfa.ofRegex r).run w = ∅)) ∧
      (d.states[found.size]? = some (sink alphabet found.size) ↔
        ∃ w, Word.Over alphabet w ∧ (Nfa.ofRegex r).run w = ∅) := by
  have hclosed := Nfa.closed_ofRegex r
  obtain ⟨d, hd⟩ := exists_ofNfa alphabet hclosed hlimits
  obtain ⟨found, hfound, -, hstates⟩ := ofNfa_eq_ok_iff.1 hd
  have hsets := standsForSets_ofNfa hclosed hd
  have hstart := (isTotal_iff.1 (isTotal_ofNfa hclosed hd)).1
  refine ⟨found, d, hfound, hd, hsets, Nat.lt_of_le_of_lt (Nat.zero_le _) hstart, ?_, ?_, ?_⟩
  · rw [hsets.size_eq]
    exact Nfa.ncard_runSets_le hclosed alphabet
  · rw [← hstates]
    exact fun w hw => run?_eq_sink_iff hclosed hfound hw
  · rw [← hstates]
    exact states_eq_sink_iff hclosed hfound

/-- In the automaton of the one word `ab`, the words `b` and `aa` let a run die and lead to the
sink. -/
theorem states_ofNfa_ofRegex_sink :
    Limits.dfaStates {} = none ∧ Word.Over (.ofList ['a', 'b']) ['b'] ∧
      Word.Over (.ofList ['a', 'b']) ['a', 'a'] ∧
      ∃ found d, (Nfa.ofRegex (.cat (.symbol 'a') (.symbol 'b'))).subsets (.ofList ['a', 'b']) {} =
          .ok found ∧
        ofNfa (.ofRegex (.cat (.symbol 'a') (.symbol 'b'))) (.ofList ['a', 'b']) {} = .ok d ∧
        d.run? ['b'] = d.run? ['a', 'a'] ∧ d.run? ['b'] = some found.size ∧
        d.states[found.size]? = some (sink (.ofList ['a', 'b']) found.size) := by
  have hb : Word.Over (.ofList ['a', 'b']) ['b'] := List.forall_mem_singleton.2 (by decide +kernel)
  have haa : Word.Over (.ofList ['a', 'b']) ['a', 'a'] :=
    List.forall_mem_cons.2 ⟨by decide +kernel, List.forall_mem_singleton.2 (by decide +kernel)⟩
  have hrun : (Nfa.ofRegex (.cat (.symbol 'a') (.symbol 'b'))).run ['b'] = ∅ := by decide +kernel
  have hrun' : (Nfa.ofRegex (.cat (.symbol 'a') (.symbol 'b'))).run ['a', 'a'] = ∅ := by
    decide +kernel
  obtain ⟨found, d, hfound, hd, hsets, -, -, hdead, hsink⟩ :=
    states_ofNfa_ofRegex (.cat (.symbol 'a') (.symbol 'b')) (.ofList ['a', 'b'])
      (show Limits.dfaStates {} = none from rfl)
  exact ⟨rfl, hb, haa, found, d, hfound, hd, (hsets.same_iff _ _ hb haa).2 (hrun.trans hrun'.symm),
    (hdead _ hb).2 hrun, hsink.2 ⟨_, hb, hrun⟩⟩

/-! ## The smallest budget -/

/-- Determinisation fails exactly under budgets smaller than the number of states that it needs, and
otherwise gives the same automaton as without a budget. -/
theorem ofNfa_budget {limit : Nat} (h : n.Closed) (hd : ofNfa n alphabet {} = .ok d)
    (hlimit : limits.dfaStates = some limit) :
    ofNfa n alphabet limits =
      if limit < d.size then .error (.overBudget .determinization limit) else .ok d := by
  obtain ⟨found, hfound, -, rfl⟩ := ofNfa_eq_ok_iff.1 hd
  have hstage : Stage.determinization.limit? limits = some limit := hlimit
  have hsubsets : n.subsets alphabet limits =
      if limit < found.size then .error (.overBudget .determinization limit) else .ok found :=
    Graph.search_budget (Nfa.subsetGraph_fits h) hfound hstage
  rw [ofNfa_eq, hsubsets, size_ofSubsets]
  by_cases hless : limit < found.size
  · rw [if_pos hless, if_pos (Nat.lt_add_right _ hless)]
    rfl
  · rw [if_neg hless]
    show (if needsSink n alphabet found then _ else _) = _
    by_cases hsink : needsSink n alphabet found = true
    · -- The sink is charged last, with the number of all sets found.
      rw [if_pos hsink, if_pos hsink, Stage.allow_of_limit hstage]
      by_cases hroom : found.size < limit
      · rw [if_pos hroom, if_neg (by omega)]
        rfl
      · rw [if_neg hroom, if_pos (by omega)]
        rfl
    · rw [if_neg hsink, if_neg hsink, Nat.add_zero, if_neg hless]

/-- The automaton of an expression can be determinised exactly within the budgets that are at least
the number of its states, the sink included. Within them the automaton is the same as without a
budget, and under a smaller budget the error reports that budget. -/
theorem ofNfa_ofRegex_budget (r : Regex) (alphabet : Alphabet) :
    ∃ d, ofNfa (.ofRegex r) alphabet {} = .ok d ∧
      ∀ (limits : Limits) (limit : Nat), limits.dfaStates = some limit →
        ofNfa (.ofRegex r) alphabet limits =
          if limit < d.size then .error (.overBudget .determinization limit) else .ok d := by
  have hclosed := Nfa.closed_ofRegex r
  obtain ⟨d, hd⟩ := exists_ofNfa alphabet hclosed (show Limits.dfaStates {} = none from rfl)
  exact ⟨d, hd, fun limits limit hlimit => ofNfa_budget hclosed hd hlimit⟩

/-- The automaton of the one word `ab` has three states and a sink. A budget of three has no room
for the sink, and a budget of zero for no state at all. -/
theorem ofNfa_ofRegex_budget_sink :
    ∃ d, ofNfa (.ofRegex (.cat (.symbol 'a') (.symbol 'b'))) (.ofList ['a', 'b']) {} = .ok d ∧
      d.size = 4 ∧
      ofNfa (.ofRegex (.cat (.symbol 'a') (.symbol 'b'))) (.ofList ['a', 'b']) ⟨some 0, none⟩ =
        .error (.overBudget .determinization 0) ∧
      ofNfa (.ofRegex (.cat (.symbol 'a') (.symbol 'b'))) (.ofList ['a', 'b']) ⟨some 3, none⟩ =
        .error (.overBudget .determinization 3) ∧
      ofNfa (.ofRegex (.cat (.symbol 'a') (.symbol 'b'))) (.ofList ['a', 'b']) ⟨some 4, none⟩ =
        .ok d := by
  have hrun : ofNfa (.ofRegex (.cat (.symbol 'a') (.symbol 'b'))) (.ofList ['a', 'b']) {} =
      .ok ⟨.ofList ['a', 'b'], 0, #[⟨false, [1, 3]⟩, ⟨false, [3, 2]⟩, ⟨true, [3, 3]⟩,
        ⟨false, [3, 3]⟩]⟩ := by decide +kernel
  obtain ⟨d, hd, hbudget⟩ :=
    ofNfa_ofRegex_budget (.cat (.symbol 'a') (.symbol 'b')) (.ofList ['a', 'b'])
  obtain rfl := Except.ok.inj (hrun.symm.trans hd)
  exact ⟨_, hrun, rfl, hbudget ⟨some 0, none⟩ 0 rfl, hbudget ⟨some 3, none⟩ 3 rfl,
    hbudget ⟨some 4, none⟩ 4 rfl⟩

end Dfa

end RegexEquiv
