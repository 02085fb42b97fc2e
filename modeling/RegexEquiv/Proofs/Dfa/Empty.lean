import RegexEquiv.Proofs.Dfa.Lookup

/-!
# Whether an automaton accepts anything

The search for an accepting state moves along targets and does not look at symbols. In a total
automaton every target stands in the column of a symbol, so such moves and runs on words lead to the
same states (`Dfa.access_moveGraph_iff`), and no accepting state is found exactly when no word is
accepted: `Dfa.isEmpty_iff`.
-/

namespace RegexEquiv.Dfa

variable {d : Dfa} (h : d.isTotal = true)
include h

/-- A target of a state is where some symbol leads. -/
theorem exists_next?_of_mem_row {s t : Nat} (hs : s < d.size) (ht : t ∈ d.row s) :
    ∃ c, d.next? s c = some t := by
  obtain ⟨column, hcolumn⟩ := List.mem_iff_getElem?.1 ht
  have hlt : column < d.alphabet.toList.length := by
    have hrow : column < (d.row s).length := (List.getElem?_eq_some_iff.1 hcolumn).1
    rwa [((isTotal_iff.1 h).2 s hs).1] at hrow
  exact ⟨_, next?_eq_some_iff.2 ⟨column, List.getElem?_eq_getElem hlt, hcolumn⟩⟩

/-- Moves along targets lead where words lead. -/
theorem access_moveGraph_iff {s : Nat} :
    (∃ trail, d.moveGraph.Access [d.start] trail s) ↔ ∃ w, d.run? w = some s := by
  constructor
  · intro haccess
    obtain ⟨trail, haccess⟩ := haccess
    induction haccess with
    | start hs => exact ⟨[], congrArg some (List.mem_singleton.1 hs).symm⟩
    | step _ hedge ih =>
        obtain ⟨w, hrun⟩ := ih
        obtain ⟨t, ht, heq⟩ := List.mem_map.1 hedge
        obtain rfl := (Prod.mk.inj heq).2
        obtain ⟨c, hnext⟩ := exists_next?_of_mem_row h (run?_lt h hrun) ht
        exact ⟨w ++ [c], run?_concat_eq_some_iff.2 ⟨_, hrun, hnext⟩⟩
  · intro hrun
    obtain ⟨w, hrun⟩ := hrun
    induction w using List.reverseRecOn generalizing s with
    | nil =>
        obtain rfl := Option.some.inj hrun
        exact ⟨[], .start (List.mem_singleton.2 rfl)⟩
    | append_singleton w c ih =>
        obtain ⟨t, ht, hnext⟩ := run?_concat_eq_some_iff.1 hrun
        obtain ⟨trail, haccess⟩ := ih ht
        obtain ⟨column, -, htarget⟩ := next?_eq_some_iff.1 hnext
        exact ⟨trail ++ [()], haccess.step (List.mem_map_of_mem (List.mem_of_getElem? htarget))⟩

/-- No accepting state can be reached exactly when no word is accepted. -/
theorem isEmpty_iff : d.isEmpty = true ↔ ∀ w, ¬ d.accepts w = true := by
  simp only [isEmpty, List.all_eq_true, Graph.mem_reach (moveGraph_fits h),
    access_moveGraph_iff h, Bool.not_eq_true']
  constructor
  · intro hnone w haccepts
    obtain ⟨s, hrun⟩ := (run?_isSome_iff h).2 (over_of_accepts haccepts)
    rw [accepts_of_run? hrun, hnone s ⟨w, hrun⟩] at haccepts
    cases haccepts
  · intro hnone s hs
    obtain ⟨w, hrun⟩ := hs
    rw [← accepts_of_run? hrun]
    exact Bool.eq_false_iff.2 (hnone w)

end RegexEquiv.Dfa
