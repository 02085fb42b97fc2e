import RegexEquiv.Dfa.Product
import RegexEquiv.Proofs.Dfa.Run
import RegexEquiv.Proofs.Search.Order

/-!
# The least word that meets a condition

In the graph of pairs of two automata over one alphabet, a word leads to the pair in which the two
runs on it end (`Dfa.access_pairGraph_iff`), and the edges out of a pair follow the order of the
alphabet. So the search for a pair where a condition holds ends at the least word that meets the
condition. For total automata it ends in any case: `Dfa.findWitness_least`.
-/

namespace RegexEquiv

/-- The symbols of an alphabet are listed in increasing order. -/
theorem Alphabet.pairwise_lt (alphabet : Alphabet) : alphabet.toList.Pairwise (· < ·) :=
  alphabet.sorted.imp compareOfLessAndEq_eq_lt.1

namespace Dfa

variable {a b : Dfa} {condition : Bool → Bool → Bool} {limits : Limits}

/-- A word over the alphabet meets a condition on the answers of two automata. -/
def Meets (a b : Dfa) (condition : Bool → Bool → Bool) (w : Word) : Prop :=
  Word.Over a.alphabet w ∧ condition (a.accepts w) (b.accepts w) = true

/-! ## The graph of pairs -/

/-- An edge between pairs is a step of both automata. -/
theorem mem_pairGraph_edges_iff (hab : a.alphabet = b.alphabet) {p q : Pair} {c : Char} :
    (c, q) ∈ (a.pairGraph b).edges p ↔
      a.next? p.left c = some q.left ∧ b.next? p.right c = some q.right := by
  rw [next?_eq_some_iff, next?_eq_some_iff, ← hab, List.mem_iff_getElem?]
  simp only [pairGraph, List.getElem?_zip_eq_some, List.getElem?_zipWith_eq_some]
  constructor
  · intro h
    obtain ⟨i, hc, l, r, hl, hr, rfl⟩ := h
    exact ⟨⟨i, hc, hl⟩, ⟨i, hc, hr⟩⟩
  · intro h
    obtain ⟨⟨i, hi, hl⟩, ⟨j, hj, hr⟩⟩ := h
    -- The symbol stands in one column only, so both automata look there.
    have hij : i = j :=
      (List.getElem?_inj (List.getElem?_eq_some_iff.1 hi).1 a.alphabet.nodup_toList).1
        (hi.trans hj.symm)
    subst hij
    exact ⟨i, hi, q.left, q.right, hl, hr, rfl⟩

/-- A word leads to a pair exactly when the two runs end in it. -/
theorem access_pairGraph_iff (hab : a.alphabet = b.alphabet) {w : Word} {q : Pair} :
    (a.pairGraph b).Access [a.startPair b] w q ↔
      a.run? w = some q.left ∧ b.run? w = some q.right := by
  constructor
  · intro h
    induction h with
    | start hq =>
        obtain rfl := List.mem_singleton.1 hq
        exact ⟨rfl, rfl⟩
    | step _ hedge ih =>
        obtain ⟨hl, hr⟩ := (mem_pairGraph_edges_iff hab).1 hedge
        exact ⟨run?_concat_eq_some_iff.2 ⟨_, ih.1, hl⟩, run?_concat_eq_some_iff.2 ⟨_, ih.2, hr⟩⟩
  · intro h
    induction w using List.reverseRecOn generalizing q with
    | nil =>
        obtain ⟨hl, hr⟩ := h
        obtain ⟨left, right⟩ := q
        obtain rfl := Option.some.inj hl
        obtain rfl := Option.some.inj hr
        exact .start (List.mem_singleton.2 rfl)
    | append_singleton w c ih =>
        obtain ⟨l, hl, hnextl⟩ := run?_concat_eq_some_iff.1 h.1
        obtain ⟨r, hr, hnextr⟩ := run?_concat_eq_some_iff.1 h.2
        have hedge : (c, q) ∈ (a.pairGraph b).edges ⟨l, r⟩ :=
          (mem_pairGraph_edges_iff hab).2 ⟨hnextl, hnextr⟩
        exact (ih ⟨hl, hr⟩).step hedge

/-- Two total automata over one alphabet read every word over it side by side. -/
theorem exists_pair_of_over (ha : a.isTotal = true) (hb : b.isTotal = true)
    (hab : a.alphabet = b.alphabet) {w : Word} (hover : Word.Over a.alphabet w) :
    ∃ q : Pair, a.run? w = some q.left ∧ b.run? w = some q.right := by
  obtain ⟨l, hl⟩ := (run?_isSome_iff ha).2 hover
  obtain ⟨r, hr⟩ := (run?_isSome_iff hb).2 (hab ▸ hover)
  exact ⟨⟨l, r⟩, hl, hr⟩

/-- The edges out of a pair follow the order of the alphabet. -/
theorem pairGraph_ascending (a b : Dfa) : (a.pairGraph b).Ascending := by
  intro p
  have hlabels : (((a.pairGraph b).edges p).map Prod.fst).Sublist a.alphabet.toList := by
    show ((a.alphabet.toList.zip _).map Prod.fst).Sublist _
    rw [List.zip_eq_zip_take_min, List.map_fst_zip (by simp only [List.length_take]; omega)]
    exact List.take_sublist _ _
  exact a.alphabet.pairwise_lt.sublist hlabels

/-- Runs of total automata stay within as many pairs as the search allows for. -/
theorem pairGraph_fits (ha : a.isTotal = true) (hb : b.isTotal = true)
    (hab : a.alphabet = b.alphabet) : (a.pairGraph b).Fits [a.startPair b] := by
  refine ⟨(List.range a.size).flatMap fun l => (List.range b.size).map (Pair.mk l), ?_, ?_⟩
  · show _ ≤ a.size * b.size
    rw [List.length_flatMap]
    simp only [List.length_map, List.length_range, List.map_const', List.sum_replicate_nat]
    exact Nat.le_refl _
  · intro w q h
    obtain ⟨hl, hr⟩ := (access_pairGraph_iff hab).1 h
    simp only [List.mem_flatMap, List.mem_range, List.mem_map]
    exact ⟨q.left, run?_lt ha hl, q.right, run?_lt hb hr, rfl⟩

/-! ## The search for a witness -/

/-- At the pair of two runs the condition sees the answers of the automata. -/
theorem holdsAt_of_run? {w : Word} {q : Pair} (ha : a.run? w = some q.left)
    (hb : b.run? w = some q.right) :
    a.holdsAt b condition q = condition (a.accepts w) (b.accepts w) := by
  rw [holdsAt, accepts_of_run? ha, accepts_of_run? hb]

section Guard

variable {count : Nat} {v : Visit Pair Char}

/-- The guard ends the search when the budget does, or with the word of the visit when the condition
holds at the pair, and lets the search go on otherwise. -/
theorem witnessGuard_cases (a b : Dfa) (condition : Bool → Bool → Bool) (limits : Limits)
    (count : Nat) (v : Visit Pair Char) :
    (∃ e, Stage.productSearch.allow limits count = .error e ∧
      a.witnessGuard b condition limits count v = .error (.failed e)) ∨
    (Stage.productSearch.allow limits count = .ok () ∧ a.holdsAt b condition v.node = true ∧
      a.witnessGuard b condition limits count v = .error (.found v.word)) ∨
    (Stage.productSearch.allow limits count = .ok () ∧ a.holdsAt b condition v.node = false ∧
      a.witnessGuard b condition limits count v = .ok ()) := by
  unfold witnessGuard
  cases Stage.productSearch.allow limits count with
  | error e => exact .inl ⟨e, rfl, rfl⟩
  | ok _ =>
      cases a.holdsAt b condition v.node with
      | true => exact .inr (.inl ⟨rfl, rfl, rfl⟩)
      | false => exact .inr (.inr ⟨rfl, rfl, rfl⟩)

theorem witnessGuard_eq_ok_iff : a.witnessGuard b condition limits count v = .ok () ↔
    Stage.productSearch.allow limits count = .ok () ∧ a.holdsAt b condition v.node = false := by
  obtain ⟨e, hallow, hguard⟩ | ⟨hallow, hholds, hguard⟩ | ⟨hallow, hholds, hguard⟩ :=
    witnessGuard_cases a b condition limits count v
  · simp [hallow, hguard]
  · simp [hholds, hguard]
  · simp [hallow, hholds, hguard]

theorem witnessGuard_eq_found_iff {w : Word} :
    a.witnessGuard b condition limits count v = .error (.found w) ↔
      Stage.productSearch.allow limits count = .ok () ∧ a.holdsAt b condition v.node = true ∧
        v.word = w := by
  obtain ⟨e, hallow, hguard⟩ | ⟨hallow, hholds, hguard⟩ | ⟨hallow, hholds, hguard⟩ :=
    witnessGuard_cases a b condition limits count v
  · simp [hallow, hguard]
  · simp [hallow, hholds, hguard]
  · simp [hholds, hguard]

theorem witnessGuard_eq_failed_iff {e : Error} :
    a.witnessGuard b condition limits count v = .error (.failed e) ↔
      Stage.productSearch.allow limits count = .error e := by
  obtain ⟨e', hallow, hguard⟩ | ⟨hallow, -, hguard⟩ | ⟨hallow, -, hguard⟩ :=
    witnessGuard_cases a b condition limits count v
  · simp [hallow, hguard]
  · simp [hallow, hguard]
  · simp [hallow, hguard]

/-- At a pair that passes, no word meets the condition. -/
theorem not_meets_of_passed {w : Word} (hok : a.witnessGuard b condition limits count v = .ok ())
    (ha : a.run? w = some v.node.left) (hb : b.run? w = some v.node.right) :
    ¬ a.Meets b condition w := by
  intro hmeets
  have hfalse := (witnessGuard_eq_ok_iff.1 hok).2
  rw [holdsAt_of_run? ha hb, hmeets.2] at hfalse
  cases hfalse

end Guard

/-- The search for a pair where a condition holds. -/
def witnessSearch (a b : Dfa) (condition : Bool → Bool → Bool) (limits : Limits) :
    Except Halt (Discovery Pair Char) :=
  (a.pairGraph b).search (a.witnessGuard b condition limits) [a.startPair b]

/-- The answer is none when the search ends with all pairs. -/
theorem findWitness_eq_none_iff : a.findWitness b condition limits = .ok none ↔
    ∃ found, a.witnessSearch b condition limits = .ok found := by
  unfold findWitness witnessSearch
  split
  · rename_i found hfound
    exact iff_of_true rfl ⟨found, hfound⟩
  · rename_i w hfound
    rw [hfound]
    exact iff_of_false nofun nofun
  · rename_i e hfailed
    rw [hfailed]
    exact iff_of_false nofun nofun

/-- The answer is the word with which the guard stops the search. -/
theorem findWitness_eq_some_iff {w : Word} : a.findWitness b condition limits = .ok (some w) ↔
    a.witnessSearch b condition limits = .error (.found w) := by
  unfold findWitness witnessSearch
  split
  · rename_i found hfound
    rw [hfound]
    exact iff_of_false nofun nofun
  · rename_i u hfound
    rw [hfound]
    simp
  · rename_i e hfailed
    rw [hfailed]
    exact iff_of_false nofun nofun

theorem findWitness_eq_error_iff {e : Error} : a.findWitness b condition limits = .error e ↔
    a.witnessSearch b condition limits = .error (.failed e) := by
  unfold findWitness witnessSearch
  split
  · rename_i found hfound
    rw [hfound]
    exact iff_of_false nofun nofun
  · rename_i w hfound
    rw [hfound]
    exact iff_of_false nofun nofun
  · rename_i e' hfailed
    rw [hfailed]
    simp

section Total

variable (ha : a.isTotal = true) (hb : b.isTotal = true) (hab : a.alphabet = b.alphabet)
include ha hb hab

/-- A search that is stopped has found pairs to which words before that of the last visit lead. -/
theorem exists_stoppedAt {halt : Halt} (h : a.witnessSearch b condition limits = .error halt) :
    ∃ nodes v, (a.pairGraph b).StoppedAt (a.witnessGuard b condition limits) (a.startPair b) halt
      nodes v :=
  Graph.search_stoppedAt (pairGraph_ascending a b) (pairGraph_fits ha hb hab) h

/-- No word that meets the condition comes before that of the visit at which the search is
stopped. -/
theorem noLater_of_meets {halt : Halt} {nodes : List Pair} {v : Visit Pair Char}
    (h : (a.pairGraph b).StoppedAt (a.witnessGuard b condition limits) (a.startPair b) halt nodes v)
    {w : Word} (hw : a.Meets b condition w) : Word.NoLater v.word w := by
  obtain ⟨q, hleft, hright⟩ := exists_pair_of_over ha hb hab hw.1
  obtain hmem | hle := h.later w q ((access_pairGraph_iff hab).2 ⟨hleft, hright⟩)
  · obtain ⟨_, _, hok, rfl⟩ := h.passed q hmem
    exact absurd hw (not_meets_of_passed hok hleft hright)
  · exact hle

end Total

/-- The search of two total automata answers with the least word that meets the condition. -/
theorem exists_findWitness (condition : Bool → Bool → Bool) (ha : a.isTotal = true)
    (hb : b.isTotal = true) (hab : a.alphabet = b.alphabet)
    (hlimits : limits.productStates = none) :
    ∃ answer, a.findWitness b condition limits = .ok answer ∧
      Word.LeastIfAny (a.Meets b condition) answer := by
  cases hsearch : a.witnessSearch b condition limits with
  | ok found =>
      refine ⟨none, findWitness_eq_none_iff.2 ⟨found, hsearch⟩, fun w hw => ?_⟩
      obtain ⟨q, hleft, hright⟩ := exists_pair_of_over ha hb hab hw.1
      obtain ⟨count, v, hok, rfl, -⟩ := Graph.search_done (pairGraph_ascending a b)
        (pairGraph_fits ha hb hab) hsearch ((access_pairGraph_iff hab).2 ⟨hleft, hright⟩)
      exact not_meets_of_passed hok hleft hright hw
  | error halt =>
      obtain ⟨nodes, v, hstopped⟩ := exists_stoppedAt ha hb hab hsearch
      cases halt with
      | failed e =>
          have hrefused := witnessGuard_eq_failed_iff.1 hstopped.refused
          rw [Stage.allow_none (show Stage.productSearch.limit? limits = none from hlimits)]
            at hrefused
          cases hrefused
      | found w =>
          obtain ⟨-, hholds, rfl⟩ := witnessGuard_eq_found_iff.1 hstopped.refused
          obtain ⟨hleft, hright⟩ := (access_pairGraph_iff hab).1 hstopped.access
          rw [holdsAt_of_run? hleft hright] at hholds
          exact ⟨some v.word, findWitness_eq_some_iff.2 hsearch,
            .of_noLater ⟨over_of_run? hleft, hholds⟩ fun _ hw =>
              noLater_of_meets ha hb hab hstopped hw⟩

/-- For total automata over one alphabet, the search ends and gives the least word over the alphabet
that meets the condition, and it gives none exactly when no such word meets it. -/
theorem findWitness_least (ha : a.isTotal = true) (hb : b.isTotal = true)
    (hab : a.alphabet = b.alphabet) (hlimits : limits.productStates = none) :
    ∃ answer, a.findWitness b condition limits = .ok answer ∧
      (∀ w, answer = some w ↔ Word.Least (fun u => Word.Over a.alphabet u ∧
        condition (a.accepts u) (b.accepts u) = true) w) ∧
      (answer = none ↔ ∀ w, Word.Over a.alphabet w →
        condition (a.accepts w) (b.accepts w) = false) := by
  obtain ⟨answer, hanswer, hleast⟩ := exists_findWitness condition ha hb hab hlimits
  refine ⟨answer, hanswer, fun w => hleast.eq_some_iff, hleast.eq_none_iff.trans ?_⟩
  simp [Meets]

/-- The words over `a` and `b` with an odd number of `a`. -/
def oddCount : Dfa :=
  ⟨.ofList ['a', 'b'], 0, #[⟨false, [1, 0]⟩, ⟨true, [0, 1]⟩]⟩

/-- The words over `a` and `b` that end with `b`. -/
def endsWithB : Dfa :=
  ⟨.ofList ['a', 'b'], 0, #[⟨false, [0, 1]⟩, ⟨true, [0, 1]⟩]⟩

/-- The least word with an odd number of `a` that ends with `b` is `ab`. -/
theorem findWitness_least_oddCount_endsWithB :
    oddCount.isTotal = true ∧ endsWithB.isTotal = true ∧ oddCount.alphabet = endsWithB.alphabet ∧
      oddCount.findWitness endsWithB (· && ·) {} = .ok (some ['a', 'b']) ∧
      Word.Least (fun u => Word.Over oddCount.alphabet u ∧
        (oddCount.accepts u && endsWithB.accepts u) = true) ['a', 'b'] := by
  have hodd : oddCount.isTotal = true := by decide +kernel
  have hends : endsWithB.isTotal = true := by decide +kernel
  have hrun : oddCount.findWitness endsWithB (· && ·) {} = .ok (some ['a', 'b']) := by
    decide +kernel
  obtain ⟨answer, hanswer, hsome, -⟩ :=
    @findWitness_least oddCount endsWithB (· && ·) {} hodd hends rfl rfl
  obtain rfl := Except.ok.inj (hanswer.symm.trans hrun)
  exact ⟨hodd, hends, rfl, hrun, (hsome _).1 rfl⟩

end Dfa

end RegexEquiv
