import RegexEquiv.Proofs.Dfa.Product
import RegexEquiv.Proofs.Search.Threshold

/-!
# How many pairs a comparison needs

A search for a word takes up the pairs of states in the order of the least words that lead to them.
So it needs as many pairs as there are pairs to which words up to its answer lead, the answer
included: within fewer it fails, and within so many or more it gives the answer that it gives
without a budget (`Dfa.findWitness_smallest_budget`). A product needs all pairs to which words lead,
and these are its states: `Dfa.product_reached_pairs`.
-/

namespace RegexEquiv

/-- The words that come no later than the answer of a search. If there is no answer, these are all
words. -/
def Word.upTo (answer : Option Word) : Set Word := {w | ∀ u, answer = some u → NoLater w u}

theorem Word.upTo_none : upTo none = Set.univ := Set.eq_univ_of_forall fun _ => nofun

theorem Word.upTo_some (u : Word) : upTo (some u) = {w | NoLater w u} := by
  ext w
  constructor
  · intro h
    exact h u rfl
  · intro h v hv
    obtain rfl := Option.some.inj hv
    exact h

namespace Dfa

variable {a b d : Dfa} {op : Combination} {condition : Bool → Bool → Bool} {limits : Limits}
  {limit : Nat}

/-- The pairs of states in which two automata are after some words. -/
def pairsAfter (a b : Dfa) (words : Set Word) : Set Pair :=
  {q | ∃ w ∈ words, a.run? w = some q.left ∧ b.run? w = some q.right}

section Total

variable (ha : a.isTotal = true) (hb : b.isTotal = true) (hab : a.alphabet = b.alphabet)
include ha hb hab

/-! ## Counting pairs -/

/-- All pairs to which words lead are in a list that is as long as the tables allow. -/
theorem exists_list_pairsAfter : ∃ nodes : List Pair, nodes.length ≤ a.size * b.size ∧
    ∀ words, ∀ q ∈ a.pairsAfter b words, q ∈ nodes := by
  obtain ⟨nodes, hlen, hnodes⟩ := pairGraph_fits ha hb hab
  refine ⟨nodes, hlen, fun words q hq => ?_⟩
  obtain ⟨w, -, hrun⟩ := hq
  exact hnodes w q ((access_pairGraph_iff hab).2 hrun)

theorem finite_pairsAfter (words : Set Word) : (a.pairsAfter b words).Finite := by
  obtain ⟨nodes, -, hnodes⟩ := exists_list_pairsAfter ha hb hab
  exact nodes.finite_toSet.subset (hnodes words)

/-- There are no more pairs than pairs of states of the tables. -/
theorem ncard_pairsAfter_le (words : Set Word) :
    (a.pairsAfter b words).ncard ≤ a.size * b.size := by
  obtain ⟨nodes, hlen, hnodes⟩ := exists_list_pairsAfter ha hb hab
  exact Nat.le_trans (ncard_le_length (hnodes words)) hlen

/-- A search that ends has found the pairs to which words lead. -/
theorem ncard_pairsAfter_univ {ε : Type} {guard : Guard Pair Char ε} {found : Discovery Pair Char}
    (h : (a.pairGraph b).search guard [a.startPair b] = .ok found) :
    (a.pairsAfter b Set.univ).ncard = found.size := by
  rw [← Graph.ncard_access (pairGraph_fits ha hb hab) h]
  congr 1
  ext q
  simp [pairsAfter, access_pairGraph_iff hab]

omit ha hb in
/-- A search that is stopped has taken up the pairs to which words up to that of the last visit
lead. -/
theorem ncard_pairsAfter_stopped {ε : Type} {guard : Guard Pair Char ε} {reason : ε}
    {nodes : List Pair} {v : Visit Pair Char}
    (h : (a.pairGraph b).StoppedAt guard (a.startPair b) reason nodes v) :
    (a.pairsAfter b {w | Word.NoLater w v.word}).ncard = nodes.length + 1 := by
  rw [← List.length_cons (a := v.node)]
  refine ncard_eq_length h.nodup fun q => ?_
  rw [h.mem_iff]
  refine exists_congr fun w => ?_
  rw [access_pairGraph_iff hab, and_comm]
  exact Iff.rfl

/-! ## The search for a word -/

/-- A search that gives an answer has room for all pairs to which words up to the answer lead. -/
theorem ncard_upTo_le {answer : Option Word}
    (h : a.findWitness b condition limits = .ok answer)
    (hlimit : limits.productStates = some limit) :
    (a.pairsAfter b (Word.upTo answer)).ncard ≤ limit := by
  have hstage : Stage.productSearch.limit? limits = some limit := hlimit
  cases answer with
  | none =>
      obtain ⟨found, hfound⟩ := findWitness_eq_none_iff.1 h
      rw [Word.upTo_none, ncard_pairsAfter_univ ha hb hab hfound]
      exact Graph.size_le_of_passed (pairGraph_fits ha hb hab) hfound fun count v hok =>
        (Stage.allow_eq_ok_iff hstage).1 (witnessGuard_eq_ok_iff.1 hok).1
  | some w =>
      obtain ⟨nodes, v, hstopped⟩ := exists_stoppedAt ha hb hab (findWitness_eq_some_iff.1 h)
      obtain ⟨hallow, -, rfl⟩ := witnessGuard_eq_found_iff.1 hstopped.refused
      rw [Word.upTo_some, ncard_pairsAfter_stopped hab hstopped]
      exact (Stage.allow_eq_ok_iff hstage).1 hallow

/-- A search that fails had no room for all pairs to which words up to the answer lead. -/
theorem lt_ncard_upTo {answer : Option Word} {e : Error}
    (hanswer : a.findWitness b condition {} = .ok answer)
    (h : a.findWitness b condition limits = .error e)
    (hlimit : limits.productStates = some limit) :
    limit < (a.pairsAfter b (Word.upTo answer)).ncard := by
  have hstage : Stage.productSearch.limit? limits = some limit := hlimit
  obtain ⟨nodes, v, hstopped⟩ := exists_stoppedAt ha hb hab (findWitness_eq_error_iff.1 h)
  have hfull := (Stage.allow_eq_error_iff hstage).1 (witnessGuard_eq_failed_iff.1 hstopped.refused)
  obtain ⟨answer', hanswer', hleast⟩ := exists_findWitness condition ha hb hab
    (show Limits.productStates {} = none from rfl)
  obtain rfl := Except.ok.inj (hanswer.symm.trans hanswer')
  -- The answer meets the condition, so it comes no earlier than the word of the last visit.
  have hsub : a.pairsAfter b {w | Word.NoLater w v.word} ⊆ a.pairsAfter b (Word.upTo answer) := by
    intro q hq
    obtain ⟨w, hle, hrun⟩ := hq
    refine ⟨w, fun u hu => hle.trans ?_, hrun⟩
    exact noLater_of_meets ha hb hab hstopped (hleast.eq_some_iff.1 hu).1
  calc limit ≤ nodes.length := hfull.1
    _ < nodes.length + 1 := Nat.lt_succ_self _
    _ = (a.pairsAfter b {w | Word.NoLater w v.word}).ncard :=
        (ncard_pairsAfter_stopped hab hstopped).symm
    _ ≤ (a.pairsAfter b (Word.upTo answer)).ncard :=
        Set.ncard_le_ncard hsub (finite_pairsAfter ha hb hab _)

/-- Under a budget the search fails when the budget is smaller than the number of pairs to which
words up to its answer lead, and otherwise it gives the same answer. -/
theorem findWitness_budget {answer : Option Word}
    (hanswer : a.findWitness b condition {} = .ok answer)
    (hlimit : limits.productStates = some limit) :
    a.findWitness b condition limits =
      if limit < (a.pairsAfter b (Word.upTo answer)).ncard then
        .error (.overBudget .productSearch limit)
      else .ok answer := by
  obtain heq | ⟨_, ⟨limit', hlimit', rfl⟩, herror⟩ :=
    findWitness_agrees limits.le_unlimited a b condition
  · have hend := heq.trans hanswer
    rw [hend, if_neg (Nat.not_lt.2 (ncard_upTo_le ha hb hab hend hlimit))]
  · obtain rfl := Option.some.inj (hlimit.symm.trans hlimit')
    rw [herror, if_pos (lt_ncard_upTo ha hb hab hanswer herror hlimit)]

/-- The least word is shorter than the number of pairs to which words up to it lead. -/
theorem length_lt_ncard_upTo {w : Word} (h : a.findWitness b condition limits = .ok (some w)) :
    w.length < (a.pairsAfter b (Word.upTo (some w))).ncard := by
  obtain ⟨nodes, v, hstopped⟩ := exists_stoppedAt ha hb hab (findWitness_eq_some_iff.1 h)
  obtain ⟨-, -, rfl⟩ := witnessGuard_eq_found_iff.1 hstopped.refused
  rw [Word.upTo_some, ncard_pairsAfter_stopped hab hstopped]
  exact Nat.lt_succ_of_le hstopped.length_le

/-- For total automata over one alphabet, the search for a word fails exactly under budgets smaller
than the number of pairs to which words up to its answer lead, and within all others it gives the
answer that it gives without a budget. So as many pairs as there are pairs of states always suffice,
and the least word is shorter than that. -/
theorem findWitness_smallest_budget : ∃ answer, a.findWitness b condition {} = .ok answer ∧
    (∀ (limits : Limits) (limit : Nat), limits.productStates = some limit →
      a.findWitness b condition limits =
        if limit < (a.pairsAfter b (Word.upTo answer)).ncard then
          .error (.overBudget .productSearch limit)
        else .ok answer) ∧
    1 ≤ a.size * b.size ∧
    (∀ (limits : Limits) (limit : Nat), limits.productStates = some limit →
      a.size * b.size ≤ limit → a.findWitness b condition limits = .ok answer) ∧
    ∀ w, answer = some w → w.length < a.size * b.size := by
  obtain ⟨answer, hanswer, -⟩ := exists_findWitness condition ha hb hab
    (show Limits.productStates {} = none from rfl)
  have hpairs := ncard_pairsAfter_le ha hb hab (Word.upTo answer)
  refine ⟨answer, hanswer, fun limits limit hlimit => ?_, ?_, fun limits limit hlimit hle => ?_,
    fun w hw => ?_⟩
  · exact findWitness_budget ha hb hab hanswer hlimit
  · exact Nat.mul_pos (Nat.zero_lt_of_lt (isTotal_iff.1 ha).1)
      (Nat.zero_lt_of_lt (isTotal_iff.1 hb).1)
  · rw [findWitness_budget ha hb hab hanswer hlimit, if_neg (by omega)]
  · subst hw
    exact Nat.lt_of_lt_of_le (length_lt_ncard_upTo ha hb hab hanswer) hpairs

end Total

/-- The least word that ends with `b` and has no odd number of `a` is `b`. Up to it, words lead to
three of the four pairs, so a budget of two does not suffice. -/
theorem findWitness_smallest_budget_three :
    oddCount.isTotal = true ∧ endsWithB.isTotal = true ∧ oddCount.alphabet = endsWithB.alphabet ∧
      oddCount.findWitness endsWithB (fun x y => !x && y) {} = .ok (some ['b']) ∧
      (oddCount.pairsAfter endsWithB (Word.upTo (some ['b']))).ncard = 3 ∧
      oddCount.findWitness endsWithB (fun x y => !x && y) ⟨none, some 2⟩ =
        .error (.overBudget .productSearch 2) ∧
      oddCount.findWitness endsWithB (fun x y => !x && y) ⟨none, some 4⟩ = .ok (some ['b']) ∧
      ['b'].length < oddCount.size * endsWithB.size := by
  have hodd : oddCount.isTotal = true := by decide +kernel
  have hends : endsWithB.isTotal = true := by decide +kernel
  have hrun : oddCount.findWitness endsWithB (fun x y => !x && y) {} = .ok (some ['b']) := by
    decide +kernel
  have htwo : oddCount.findWitness endsWithB (fun x y => !x && y) ⟨none, some 2⟩ =
      .error (.overBudget .productSearch 2) := by decide +kernel
  have hthree : oddCount.findWitness endsWithB (fun x y => !x && y) ⟨none, some 3⟩ =
      .ok (some ['b']) := by decide +kernel
  obtain ⟨answer, hanswer, hbudget, -, henough, hlength⟩ :=
    @findWitness_smallest_budget oddCount endsWithB (fun x y => !x && y) hodd hends rfl
  obtain rfl := Except.ok.inj (hrun.symm.trans hanswer)
  have hmore := hbudget ⟨none, some 2⟩ 2 rfl
  have hless := hbudget ⟨none, some 3⟩ 3 rfl
  refine ⟨hodd, hends, rfl, hrun, ?_, htwo, henough ⟨none, some 4⟩ 4 rfl (by decide),
    hlength _ rfl⟩
  rw [htwo] at hmore
  rw [hthree] at hless
  split at hmore
  · split at hless
    · cases hless
    · omega
  · cases hmore

/-! ## The product -/

/-- `d.StandsForPairs a b op` says that the states of `d` are the pairs in which `a` and `b` are
after some word, one state for each pair, and that `d` gives the combination of the answers of `a`
and `b`. -/
structure StandsForPairs (d a b : Dfa) (op : Combination) : Prop where
  total : d.isTotal = true
  alphabet_eq : d.alphabet = a.alphabet
  size_eq : d.size = (a.pairsAfter b Set.univ).ncard
  accepts_eq : ∀ w, Word.Over a.alphabet w → d.accepts w = op.accepts (a.accepts w) (b.accepts w)
  same_iff : ∀ u v, Word.Over a.alphabet u → Word.Over a.alphabet v →
    (d.run? u = d.run? v ↔ a.run? u = a.run? v ∧ b.run? u = b.run? v)

section Product

variable (ha : a.isTotal = true) (hb : b.isTotal = true) (hab : a.alphabet = b.alphabet)
include ha hb hab

/-- The states of a product are the pairs to which words lead. -/
theorem standsForPairs_product (hd : a.product b op limits = .ok d) : d.StandsForPairs a b op := by
  obtain ⟨found, hfound, hstates⟩ := product_eq_ok_iff.1 hd
  refine ⟨isTotal_product ha hb hab hd, alphabet_product hd, ?_, fun w hw => ?_,
    fun u v hu hv => ?_⟩
  · rw [ncard_pairsAfter_univ ha hb hab hfound, ← hstates, size_ofPairs]
  · rw [Bool.eq_iff_iff, accepts_product ha hb hab hd]
    exact and_iff_right hw
  · obtain ⟨⟨l, r⟩, hpl, hpr⟩ := exists_pair_of_over ha hb hab hu
    obtain ⟨⟨l', r'⟩, hql, hqr⟩ := exists_pair_of_over ha hb hab hv
    have hmem := (mem_nodes_pairs ha hb hab hfound).2 ⟨u, hpl, hpr⟩
    rw [← hstates, run?_ofPairs ha hb hab hfound hpl hpr, run?_ofPairs ha hb hab hfound hql hqr,
      Option.some_inj, Discovery.number_inj hmem, hpl, hpr, hql, hqr, Option.some_inj,
      Option.some_inj]
    exact iff_of_eq (Pair.mk.injEq l r l' r')

/-- Under a budget the product fails when the budget is smaller than the number of pairs to which
words lead, and otherwise it is the product without a budget. -/
theorem product_budget (hd : a.product b op {} = .ok d)
    (hlimit : limits.productStates = some limit) :
    a.product b op limits =
      if limit < (a.pairsAfter b Set.univ).ncard then .error (.overBudget .productSearch limit)
      else .ok d := by
  obtain ⟨found, hfound, rfl⟩ := product_eq_ok_iff.1 hd
  have hstage : Stage.productSearch.limit? limits = some limit := hlimit
  have hpairs : a.pairs b limits =
      if limit < found.size then .error (.overBudget .productSearch limit) else .ok found :=
    Graph.search_budget (pairGraph_fits ha hb hab) hfound hstage
  rw [product_eq, hpairs, ncard_pairsAfter_univ ha hb hab hfound]
  split <;> rfl

/-- The product of two total automata over one alphabet fails exactly when a budget is set that is
smaller than the number of pairs to which words lead, and reports that budget. Otherwise it is a
total automaton whose states are these pairs, and it gives the combination of the answers of the
two. -/
theorem product_reached_pairs :
    (∀ limit, a.product b op limits = .error (.overBudget .productSearch limit) ↔
      limits.productStates = some limit ∧ limit < (a.pairsAfter b Set.univ).ncard) ∧
    ((∀ limit, limits.productStates = some limit → (a.pairsAfter b Set.univ).ncard ≤ limit) →
      ∃ d, a.product b op limits = .ok d ∧ d.StandsForPairs a b op) := by
  cases hbudget : limits.productStates with
  | none =>
      obtain ⟨d, hd⟩ := exists_product op ha hb hab hbudget
      refine ⟨fun limit => ?_, fun _ => ⟨d, hd, standsForPairs_product ha hb hab hd⟩⟩
      rw [hd]
      exact iff_of_false nofun nofun
  | some bound =>
      obtain ⟨d, hd⟩ := exists_product op ha hb hab (show Limits.productStates {} = none from rfl)
      have hproduct := product_budget ha hb hab hd hbudget
      constructor
      · intro limit
        rw [hproduct, Option.some_inj]
        by_cases hless : bound < (a.pairsAfter b Set.univ).ncard
        · rw [if_pos hless, Except.error.injEq, Error.overBudget.injEq, and_iff_right rfl]
          exact (and_iff_left_of_imp fun heq => heq ▸ hless).symm
        · rw [if_neg hless]
          exact iff_of_false nofun fun h => hless (h.1 ▸ h.2)
      · intro hroom
        rw [if_neg (Nat.not_lt.2 (hroom bound rfl))] at hproduct
        exact ⟨d, hproduct, standsForPairs_product ha hb hab hd⟩

end Product

/-- The product of the words with an odd number of `a` and those that end with `b` has four states.
A budget of three does not suffice for it. -/
theorem product_reached_pairs_four :
    oddCount.isTotal = true ∧ endsWithB.isTotal = true ∧ oddCount.alphabet = endsWithB.alphabet ∧
      (oddCount.pairsAfter endsWithB Set.univ).ncard = 4 ∧
      oddCount.product endsWithB .union ⟨none, some 3⟩ = .error (.overBudget .productSearch 3) ∧
      ∃ d, oddCount.product endsWithB .union ⟨none, some 4⟩ = .ok d ∧
        d.StandsForPairs oddCount endsWithB .union := by
  have hodd : oddCount.isTotal = true := by decide +kernel
  have hends : endsWithB.isTotal = true := by decide +kernel
  have hrun : oddCount.product endsWithB .union {} = .ok ⟨.ofList ['a', 'b'], 0,
      #[⟨false, [1, 2]⟩, ⟨true, [0, 3]⟩, ⟨true, [1, 2]⟩, ⟨true, [0, 3]⟩]⟩ := by decide +kernel
  obtain ⟨d, hd, hpairs⟩ :=
    (@product_reached_pairs oddCount endsWithB .union {} hodd hends rfl).2 nofun
  obtain rfl := Except.ok.inj (hrun.symm.trans hd)
  have hfour : (oddCount.pairsAfter endsWithB Set.univ).ncard = 4 := hpairs.size_eq.symm
  refine ⟨hodd, hends, rfl, hfour, ?_, ?_⟩
  · exact ((product_reached_pairs hodd hends rfl).1 3).2 ⟨rfl, by omega⟩
  · refine (product_reached_pairs hodd hends rfl).2 fun limit hlimit => ?_
    obtain rfl := Option.some.inj hlimit
    exact Nat.le_of_eq hfour

end Dfa

end RegexEquiv
