import RegexEquiv.Proofs.Dfa.Witness
import RegexEquiv.Proofs.Except
import RegexEquiv.Proofs.Search.Reach

/-!
# The language of a product

After a word over the alphabet, the product of two total automata is in the state whose number is
that of the pair in which the two automata are (`Dfa.run?_ofPairs`). All pairs to which words lead
have been found, so every state is that of some word (`Dfa.exists_run?_product`) and the product is
total (`Dfa.isTotal_product`). It accepts the words over the alphabet for which the combination of
the two answers is positive: `Dfa.accepts_product`.
-/

namespace RegexEquiv.Dfa

variable {a b d : Dfa} {op : Combination} {limits : Limits} {found : Discovery Pair Char}

/-! ## The table -/

/-- The state for a pair. -/
def pairState (a b : Dfa) (op : Combination) (found : Discovery Pair Char) (pair : Pair) :
    DfaState where
  accepting := a.holdsAt b op.accepts pair
  next := ((a.pairGraph b).edges pair).map fun edge => found.number edge.2

/-- The automaton of the pairs that a search has found. -/
def ofPairs (a b : Dfa) (op : Combination) (found : Discovery Pair Char) : Dfa :=
  ⟨a.alphabet, 0, (found.nodes.map (pairState a b op found)).toArray⟩

/-- The search for all pairs of states of two automata. -/
def pairs (a b : Dfa) (limits : Limits) : Except Error (Discovery Pair Char) :=
  (a.pairGraph b).search (fun count _ => Stage.productSearch.allow limits count) [a.startPair b]

/-- The product is the automaton of the pairs found. -/
theorem product_eq : a.product b op limits = (a.pairs b limits).map (ofPairs a b op) := by
  unfold product pairs
  cases (a.pairGraph b).search (fun count _ => Stage.productSearch.allow limits count)
    [a.startPair b] <;> rfl

/-- The product exists when the search for pairs succeeds. -/
theorem product_eq_ok_iff : a.product b op limits = .ok d ↔
    ∃ found, a.pairs b limits = .ok found ∧ ofPairs a b op found = d := by
  rw [product_eq, Except.map_eq_ok_iff]

/-- A pair that has been found has a state of its own. -/
theorem states_ofPairs {q : Pair} {i : Nat} (hq : found.nodes[i]? = some q) :
    (ofPairs a b op found).states[i]? = some (pairState a b op found q) := by
  rw [ofPairs, List.getElem?_toArray, List.getElem?_map, hq]
  rfl

theorem size_ofPairs : (ofPairs a b op found).size = found.size := by
  simp [ofPairs, size]

/-- A step of the product goes from the number of a pair to the number of the next. -/
theorem next?_ofPairs (hab : a.alphabet = b.alphabet) {q next : Pair} {c : Char}
    (hq : q ∈ found.nodes) (hleft : a.next? q.left c = some next.left)
    (hright : b.next? q.right c = some next.right) :
    (ofPairs a b op found).next? (found.number q) c = some (found.number next) := by
  obtain ⟨i, hi⟩ := List.mem_iff_getElem?.1 hq
  obtain ⟨column, hedge⟩ :=
    List.mem_iff_getElem?.1 ((mem_pairGraph_edges_iff hab).2 ⟨hleft, hright⟩)
  have hc : a.alphabet.toList[column]? = some c := (List.getElem?_zip_eq_some.1 hedge).1
  refine next?_eq_some_iff.2 ⟨column, hc, ?_⟩
  rw [Discovery.number_of_getElem? hi, row_of_getElem? (states_ofPairs hi), pairState,
    List.getElem?_map, hedge]
  rfl

/-! ## The pairs found -/

section Found

variable (ha : a.isTotal = true) (hb : b.isTotal = true) (hab : a.alphabet = b.alphabet)
  (hfound : a.pairs b limits = .ok found)
include ha hb hab hfound

/-- The pairs found are those in which the two automata are after some word. -/
theorem mem_nodes_pairs {q : Pair} :
    q ∈ found.nodes ↔ ∃ w, a.run? w = some q.left ∧ b.run? w = some q.right := by
  rw [Graph.mem_nodes_of_search (pairGraph_fits ha hb hab) hfound]
  simp only [access_pairGraph_iff hab]

/-- The pair of the two start states is found first. -/
theorem number_startPair : found.nodes[0]? = some (a.startPair b) := by
  have hhead := Graph.head?_nodes_of_search (pairGraph_fits ha hb hab) hfound
  rwa [List.head?_cons, List.head?_eq_getElem?] at hhead

/-- After a word, the product is in the state of the pair in which the two automata are. -/
theorem run?_ofPairs {w : Word} {q : Pair} (hleft : a.run? w = some q.left)
    (hright : b.run? w = some q.right) :
    (ofPairs a b op found).run? w = some (found.number q) := by
  induction w using List.reverseRecOn generalizing q with
  | nil =>
      obtain ⟨l, r⟩ := q
      obtain rfl : a.start = l := Option.some.inj hleft
      obtain rfl : b.start = r := Option.some.inj hright
      have hnumber : found.number (a.startPair b) = 0 :=
        Discovery.number_of_getElem? (number_startPair ha hb hab hfound)
      exact congrArg some hnumber.symm
  | append_singleton w c ih =>
      obtain ⟨l, hl, hnextl⟩ := run?_concat_eq_some_iff.1 hleft
      obtain ⟨r, hr, hnextr⟩ := run?_concat_eq_some_iff.1 hright
      have hmem : ⟨l, r⟩ ∈ found.nodes := (mem_nodes_pairs ha hb hab hfound).2 ⟨w, hl, hr⟩
      exact run?_concat_eq_some_iff.2
        ⟨found.number ⟨l, r⟩, ih hl hr, next?_ofPairs hab hmem hnextl hnextr⟩

end Found

/-! ## The product -/

section Product

variable (ha : a.isTotal = true) (hb : b.isTotal = true) (hab : a.alphabet = b.alphabet)
  (hd : a.product b op limits = .ok d)
include hd

/-- A product keeps the alphabet of its operands. -/
theorem alphabet_product : d.alphabet = a.alphabet := by
  obtain ⟨found, -, rfl⟩ := product_eq_ok_iff.1 hd
  rfl

theorem start_product : d.start = 0 := by
  obtain ⟨found, -, rfl⟩ := product_eq_ok_iff.1 hd
  rfl

include ha hb hab

/-- Every state of a product is that after some word. -/
theorem exists_run?_product {s : Nat} (hs : s < d.size) : ∃ w, d.run? w = some s := by
  obtain ⟨found, hfound, rfl⟩ := product_eq_ok_iff.1 hd
  rw [size_ofPairs, ← Discovery.nodes_length] at hs
  have hq := List.getElem?_eq_getElem hs
  obtain ⟨w, hleft, hright⟩ := (mem_nodes_pairs ha hb hab hfound).1 (List.getElem_mem hs)
  refine ⟨w, ?_⟩
  rw [run?_ofPairs ha hb hab hfound hleft hright, Discovery.number_of_getElem? hq]

/-- The product of total automata is total. -/
theorem isTotal_product : d.isTotal = true := by
  obtain ⟨found, hfound, rfl⟩ := product_eq_ok_iff.1 hd
  have hstart := number_startPair ha hb hab hfound
  refine isTotal_iff.2 ⟨?_, fun s hs => ?_⟩
  · rw [size_ofPairs, ← Discovery.nodes_length]
    exact (List.getElem?_eq_some_iff.1 hstart).1
  · rw [size_ofPairs, ← Discovery.nodes_length] at hs
    have hq := List.getElem?_eq_getElem hs
    have hmem : found.nodes[s] ∈ found.nodes := List.getElem_mem hs
    obtain ⟨w, hleft, hright⟩ := (mem_nodes_pairs ha hb hab hfound).1 hmem
    have hrowl := ((isTotal_iff.1 ha).2 _ (run?_lt ha hleft)).1
    have hrowr := ((isTotal_iff.1 hb).2 _ (run?_lt hb hright)).1
    rw [row_of_getElem? (states_ofPairs hq), pairState]
    constructor
    · -- No row is shorter than the alphabet, so none cuts the others off.
      rw [List.length_map, pairGraph, List.length_zip, List.length_zipWith, hrowl, hrowr, ← hab]
      show min a.alphabet.size _ = a.alphabet.size
      omega
    · intro t ht
      obtain ⟨⟨c, next⟩, hedge, rfl⟩ := List.mem_map.1 ht
      obtain ⟨hl, hr⟩ := (mem_pairGraph_edges_iff hab).1 hedge
      rw [size_ofPairs, Discovery.number_lt_iff, mem_nodes_pairs ha hb hab hfound]
      exact ⟨w ++ [c], run?_concat_eq_some_iff.2 ⟨_, hleft, hl⟩,
        run?_concat_eq_some_iff.2 ⟨_, hright, hr⟩⟩

/-- A product accepts the words over the alphabet for which the combination of the answers of its
operands is positive. -/
theorem accepts_product {w : Word} : d.accepts w = true ↔ a.Meets b op.accepts w := by
  obtain ⟨found, hfound, rfl⟩ := product_eq_ok_iff.1 hd
  have hrun : ∀ {q : Pair}, a.run? w = some q.left → b.run? w = some q.right →
      (ofPairs a b op found).accepts w = op.accepts (a.accepts w) (b.accepts w) := by
    intro q hleft hright
    have hmem := (mem_nodes_pairs ha hb hab hfound).2 ⟨w, hleft, hright⟩
    obtain ⟨i, hi⟩ := List.mem_iff_getElem?.1 hmem
    rw [accepts_of_run? (run?_ofPairs ha hb hab hfound hleft hright),
      Discovery.number_of_getElem? hi, isAccepting_of_getElem? (states_ofPairs hi)]
    show a.holdsAt b op.accepts q = _
    exact holdsAt_of_run? hleft hright
  constructor
  · intro haccepts
    have hover : Word.Over (ofPairs a b op found).alphabet w := over_of_accepts haccepts
    obtain ⟨q, hleft, hright⟩ := exists_pair_of_over ha hb hab hover
    rw [hrun hleft hright] at haccepts
    exact ⟨hover, haccepts⟩
  · intro hmeets
    obtain ⟨q, hleft, hright⟩ := exists_pair_of_over ha hb hab hmeets.1
    rw [hrun hleft hright]
    exact hmeets.2

end Product

/-- Without a budget the product is built. -/
theorem exists_product (op : Combination) (ha : a.isTotal = true) (hb : b.isTotal = true)
    (hab : a.alphabet = b.alphabet) (hlimits : limits.productStates = none) :
    ∃ d, a.product b op limits = .ok d := by
  obtain ⟨found, hfound⟩ : ∃ found, a.pairs b limits = .ok found :=
    Graph.exists_search_eq_ok (pairGraph_fits ha hb hab) fun count _ =>
      Stage.allow_none (show Stage.productSearch.limit? limits = none from hlimits) count
  exact ⟨_, product_eq_ok_iff.2 ⟨found, hfound, rfl⟩⟩

end RegexEquiv.Dfa
