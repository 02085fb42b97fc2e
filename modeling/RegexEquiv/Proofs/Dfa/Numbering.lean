import RegexEquiv.Proofs.Dfa.Complement
import RegexEquiv.Proofs.Dfa.ReachedPairs
import RegexEquiv.Proofs.Dfa.StateSets

/-!
# The numbers of states

The states of a product are numbered in the order of the least words that lead to them, and so are
those of a determinised automaton, apart from the sink behind them
(`Dfa.numberedByWords_product`, `Dfa.numberedByWords_ofSubsets`). Such a numbering leaves no choice:
two automata numbered in this way are equal if the same words lead to one state in both and they
answer alike (`Dfa.Alike.eq_of_accepts_eq`). So a product is known by what its states stand for and
by its answers (`Dfa.product_eq_ok_iff_isProduct`), and the intersection and the union of a product
with itself are the product again: `Dfa.states_numberedByWords`.
-/

namespace RegexEquiv

/-- The edges out of a set follow the order of the alphabet. -/
theorem Nfa.subsetGraph_ascending (n : Nfa) (alphabet : Alphabet) :
    (n.subsetGraph alphabet).Ascending := by
  intro X
  have hedges : ((n.subsetGraph alphabet).edges X).Sublist
      (alphabet.toList.map fun c => (c, n.advance X c)) := List.filter_sublist
  have hlabels := hedges.map Prod.fst
  rw [List.map_map, show Prod.fst ∘ _ = id from rfl, List.map_id] at hlabels
  exact alphabet.pairwise_lt.sublist hlabels

namespace Dfa

variable {a b d d' : Dfa} {op : Combination} {n : Nfa} {alphabet : Alphabet} {limits : Limits}

/-- `d.LeastWord s w` says that `w` is the least word that leads to the state `s`. -/
def LeastWord (d : Dfa) (s : Nat) : Word → Prop := Word.Least fun u => d.run? u = some s

/-- `d.NumberedByWords states` says that words lead to all states below a number, the empty word to
the first, and that these states are numbered in the order of the least words that lead to them. -/
structure NumberedByWords (d : Dfa) (states : Nat) : Prop where
  start : d.LeastWord 0 []
  reached : ∀ s < states, ∃ w, d.LeastWord s w
  ascending : ∀ s t u v, s < t → t < states → d.LeastWord s u → d.LeastWord t v → Word.Before u v

/-! ## Numbers from a search -/

/-- If the first states of an automaton stand for the nodes that a search has found, they are
numbered by words. -/
theorem numberedByWords_of_search {σ ε : Type} [Ord σ] [Std.TransOrd σ] [Std.LawfulEqOrd σ]
    {g : Graph σ Char} {guard : Guard σ Char ε} {x : σ} {found : Discovery σ Char}
    (hasc : g.Ascending) (hfits : g.Fits [x]) (hfound : g.search guard [x] = .ok found)
    (hstates : ∀ {s : Nat} {y : σ}, found.nodes[s]? = some y →
      ∀ w, d.run? w = some s ↔ g.Access [x] w y) :
    d.NumberedByWords found.size := by
  obtain ⟨hascending, hleast⟩ := Graph.search_leastWords hasc hfits hfound
  -- The search keeps with each node the least word that leads to it.
  have hword : ∀ (s : Nat) (v : Visit σ Char), found.visits.toList[s]? = some v →
      d.LeastWord s v.word := by
    intro s v hv
    have hnode : found.nodes[s]? = some v.node := by
      rw [Discovery.nodes, List.getElem?_map, hv]
      rfl
    obtain ⟨haccess, hbefore⟩ := hleast v (List.mem_of_getElem? hv)
    exact ⟨(hstates hnode _).2 haccess, fun u hu => hbefore u ((hstates hnode u).1 hu)⟩
  refine ⟨?_, fun s hs => ?_, fun s t u v hst ht hu hv => ?_⟩
  · have hhead := Graph.head?_nodes_of_search hfits hfound
    rw [List.head?_cons, List.head?_eq_getElem?] at hhead
    exact Word.least_nil ((hstates hhead []).2 (.start (List.mem_singleton.2 rfl)))
  · exact ⟨_, hword s _ (List.getElem?_eq_getElem hs)⟩
  · have hs := Nat.lt_trans hst ht
    obtain rfl := Word.Least.unique hu (hword s _ (List.getElem?_eq_getElem hs))
    obtain rfl := Word.Least.unique hv (hword t _ (List.getElem?_eq_getElem ht))
    exact List.pairwise_iff_getElem.1 hascending s t hs ht hst

/-- A word leads a product to the state of a pair exactly when it leads the operands to the pair. -/
theorem run?_ofPairs_eq_some_iff {found : Discovery Pair Char} (ha : a.isTotal = true)
    (hb : b.isTotal = true) (hab : a.alphabet = b.alphabet) (hfound : a.pairs b limits = .ok found)
    {s : Nat} {q : Pair} (hq : found.nodes[s]? = some q) (w : Word) :
    (ofPairs a b op found).run? w = some s ↔ a.run? w = some q.left ∧ b.run? w = some q.right := by
  constructor
  · intro hrun
    have hover : Word.Over (ofPairs a b op found).alphabet w := over_of_run? hrun
    obtain ⟨p, hleft, hright⟩ := exists_pair_of_over ha hb hab hover
    rw [run?_ofPairs ha hb hab hfound hleft hright, ← Discovery.number_of_getElem? hq,
      Option.some_inj, eq_comm, Discovery.number_inj (List.mem_of_getElem? hq)] at hrun
    exact hrun ▸ ⟨hleft, hright⟩
  · intro hrun
    rw [run?_ofPairs ha hb hab hfound hrun.1 hrun.2, Discovery.number_of_getElem? hq]

/-- The states of a product are numbered by words. -/
theorem numberedByWords_product (ha : a.isTotal = true) (hb : b.isTotal = true)
    (hab : a.alphabet = b.alphabet) (hd : a.product b op limits = .ok d) :
    d.NumberedByWords d.size := by
  obtain ⟨found, hfound, rfl⟩ := product_eq_ok_iff.1 hd
  rw [size_ofPairs]
  refine numberedByWords_of_search (pairGraph_ascending a b) (pairGraph_fits ha hb hab) hfound
    fun hq w => ?_
  rw [access_pairGraph_iff hab, run?_ofPairs_eq_some_iff ha hb hab hfound hq]

/-- A word leads a determinised automaton to the state of a set exactly when it is a word over the
alphabet that leaves a run alive in that set. -/
theorem run?_ofSubsets_eq_some_iff {found : Discovery StateSet Char} (h : n.Closed)
    (hfound : n.subsets alphabet limits = .ok found) {s : Nat} {X : StateSet}
    (hX : found.nodes[s]? = some X) (w : Word) : (ofSubsets n alphabet found).run? w = some s ↔
      Word.Over alphabet w ∧ n.run w = X ∧ X.isEmpty = false := by
  have hmem := List.mem_of_getElem? hX
  constructor
  · intro hrun
    have hover : Word.Over alphabet w := over_of_run? hrun
    obtain ⟨-, -, -, hlive⟩ := (Nfa.mem_nodes_subsets h hfound).1 hmem
    rw [(run?_ofSubsets h hfound hover).1, ← Discovery.number_of_getElem? hX, Option.some_inj,
      eq_comm, Discovery.number_inj hmem] at hrun
    exact ⟨hover, hrun.symm, hlive⟩
  · intro hrun
    obtain ⟨hover, rfl, -⟩ := hrun
    rw [(run?_ofSubsets h hfound hover).1, Discovery.number_of_getElem? hX]

/-- The states of a determinised automaton before the sink are numbered by words. -/
theorem numberedByWords_ofSubsets {found : Discovery StateSet Char} (h : n.Closed)
    (hfound : n.subsets alphabet limits = .ok found) :
    (ofSubsets n alphabet found).NumberedByWords found.size := by
  refine numberedByWords_of_search (Nfa.subsetGraph_ascending n alphabet) (Nfa.subsetGraph_fits h)
    hfound fun hX w => ?_
  rw [Nfa.access_subsetGraph_iff h, run?_ofSubsets_eq_some_iff h hfound hX]

/-! ## What a numbering leaves open -/

/-- What a table has to say about a state. -/
theorem states_of_lt {s : Nat} (hs : s < d.size) :
    d.states[s]? = some ⟨d.isAccepting s, d.row s⟩ := by
  have hget : d.states[s]? = some d.states[s] := Array.getElem?_eq_getElem hs
  rw [isAccepting_of_getElem? hget, row_of_getElem? hget, hget]

/-- A symbol of the alphabet leads where its column in the row says. -/
theorem next?_of_getElem? {s column : Nat} {c : Char} (h : d.alphabet.toList[column]? = some c) :
    d.next? s c = (d.row s)[column]? := by
  have hcolumn : d.alphabet.idxOf? c = some column := SortedSet.get?_eq_some_iff.1 h
  rw [next?, hcolumn]
  rfl

section Same

variable (hd : d.isTotal = true) (hd' : d'.isTotal = true) (halphabet : d.alphabet = d'.alphabet)
include hd hd' halphabet

/-- Two automata that run alike have the same rows, since the entries of a row are where words with
one symbol more lead. -/
theorem row_eq_of_run?_eq (hrun : ∀ w, d.run? w = d'.run? w) {s : Nat} {w : Word}
    (hs : d.run? w = some s) : d.row s = d'.row s := by
  refine List.ext_getElem? fun column => ?_
  cases hc : d.alphabet.toList[column]? with
  | some c =>
      have hstep := hrun (w ++ [c])
      rwa [run?_concat, run?_concat, hs, ← hrun w, hs, Option.bind_some, Option.bind_some,
        next?_of_getElem? hc, next?_of_getElem? (halphabet ▸ hc)] at hstep
  | none =>
      have hcolumn : d.alphabet.size ≤ column := List.getElem?_eq_none_iff.1 hc
      have hlength := ((isTotal_iff.1 hd).2 s (run?_lt hd hs)).1
      have hlength' := ((isTotal_iff.1 hd').2 s (run?_lt hd' (hrun w ▸ hs))).1
      rw [← halphabet] at hlength'
      rw [List.getElem?_eq_none (by omega), List.getElem?_eq_none (by omega)]

/-- Two automata that run alike and answer alike are equal if words lead to all their states. -/
theorem eq_of_run?_eq (hreached : ∀ s < d.size, ∃ w, d.run? w = some s)
    (hreached' : ∀ s < d'.size, ∃ w, d'.run? w = some s) (hrun : ∀ w, d.run? w = d'.run? w)
    (haccepts : ∀ w, d.accepts w = d'.accepts w) : d = d' := by
  have hsize : ∀ s, s < d.size ↔ s < d'.size := by
    intro s
    constructor
    · intro hs
      obtain ⟨w, hw⟩ := hreached s hs
      exact run?_lt hd' (hrun w ▸ hw)
    · intro hs
      obtain ⟨w, hw⟩ := hreached' s hs
      exact run?_lt hd ((hrun w).trans hw)
  have hstates : d.states = d'.states := by
    refine Array.ext_getElem? fun s => ?_
    by_cases hs : s < d.size
    · obtain ⟨w, hw⟩ := hreached s hs
      have hw' : d'.run? w = some s := hrun w ▸ hw
      rw [states_of_lt hs, states_of_lt ((hsize s).1 hs),
        row_eq_of_run?_eq hd hd' halphabet hrun hw, ← accepts_of_run? hw, ← accepts_of_run? hw',
        haccepts]
    · rw [Array.getElem?_eq_none (Nat.not_lt.1 hs),
        Array.getElem?_eq_none (Nat.not_lt.1 (mt (hsize s).2 hs))]
  have hstart : d.start = d'.start := Option.some.inj (hrun [])
  cases d
  cases d'
  rw [Dfa.mk.injEq]
  exact ⟨halphabet, hstart, hstates⟩

end Same

/-! ## One automaton for each numbering -/

/-- `d.Alike d'` says that two total automata over one alphabet are numbered by words, and that two
words lead to one state of the first exactly when they lead to one state of the second. -/
structure Alike (d d' : Dfa) : Prop where
  total : d.isTotal = true
  total' : d'.isTotal = true
  alphabet_eq : d.alphabet = d'.alphabet
  numbered : d.NumberedByWords d.size
  numbered' : d'.NumberedByWords d'.size
  same_iff : ∀ u v, Word.Over d.alphabet u → Word.Over d.alphabet v →
    (d.run? u = d.run? v ↔ d'.run? u = d'.run? v)

namespace Alike

variable {s t : Nat} {w : Word}

theorem symm (h : d.Alike d') : d'.Alike d where
  total := h.total'
  total' := h.total
  alphabet_eq := h.alphabet_eq.symm
  numbered := h.numbered'
  numbered' := h.numbered
  same_iff u v hu hv := (h.same_iff u v (h.alphabet_eq ▸ hu) (h.alphabet_eq ▸ hv)).symm

/-- A word leads somewhere in both automata or in neither. -/
theorem exists_run? (h : d.Alike d') (hw : d.run? w = some s) : ∃ t, d'.run? w = some t :=
  (run?_isSome_iff h.total').2 (h.alphabet_eq ▸ over_of_run? hw)

/-- Words that lead to one state of the first lead to one state of the second. -/
theorem run?_eq_of_run? (h : d.Alike d') {u : Word} (hw : d.run? w = some s)
    (hu : d.run? u = some s) : d'.run? w = d'.run? u :=
  (h.same_iff w u (over_of_run? hw) (over_of_run? hu)).1 (hw.trans hu.symm)

/-- The least word that leads to a state of the first is the least that leads to its state of the
second. -/
theorem leastWord (h : d.Alike d') (hw : d.LeastWord s w) (ht : d'.run? w = some t) :
    d'.LeastWord t w := by
  refine ⟨ht, fun u hu hne => hw.2 u ?_ hne⟩
  exact (h.symm.run?_eq_of_run? hu ht).trans hw.1

/-- If the same words lead to each state below a number in both automata, those that lead to the
state of this number in the first lead to it in the second. -/
theorem run?_of_below (h : d.Alike d')
    (hbelow : ∀ t < s, ∀ u, d.run? u = some t ↔ d'.run? u = some t) (hw : d.run? w = some s) :
    d'.run? w = some s := by
  obtain ⟨v, hv⟩ := h.numbered.reached s (run?_lt h.total hw)
  obtain ⟨t, ht⟩ := h.exists_run? hv.1
  rw [h.run?_eq_of_run? hw hv.1, ht, Option.some_inj]
  have hvt := h.leastWord hv ht
  obtain hlt | heq | hlt := Nat.lt_trichotomy t s
  · have hts := (hbelow t hlt v).2 ht
    rw [hv.1, Option.some_inj] at hts
    exact hts.symm
  · exact heq
  · -- The least word of `s` in the second comes before that in the first, so it leads lower there.
    have htsize := run?_lt h.total' ht
    obtain ⟨u, hu⟩ := h.numbered'.reached s (Nat.lt_trans hlt htsize)
    have huv := h.numbered'.ascending s t u v hlt htsize hu hvt
    obtain ⟨r, hr⟩ := h.symm.exists_run? hu.1
    have hur := h.symm.leastWord hu hr
    obtain hless | rfl | hless := Nat.lt_trichotomy r s
    · have hrs := (hbelow r hless u).1 hr
      rw [hu.1, Option.some_inj] at hrs
      omega
    · exact absurd (Word.Least.unique hur hv ▸ huv) (Word.before_irrefl v)
    · have hvu := h.numbered.ascending s r v u hless (run?_lt h.total hr) hv hur
      exact absurd (huv.trans hvu) (Word.before_irrefl u)

/-- Two automata that are alike lead every word to the same state. -/
theorem run?_eq (h : d.Alike d') (w : Word) : d.run? w = d'.run? w := by
  have hsame : ∀ s w, d.run? w = some s ↔ d'.run? w = some s := by
    intro s
    induction s using Nat.strongRecOn with
    | ind s ih =>
        intro w
        exact ⟨h.run?_of_below ih, h.symm.run?_of_below fun t ht u => (ih t ht u).symm⟩
  exact Option.ext fun s => hsame s w

/-- Two automata that are alike and answer alike on the words over their alphabet are equal. -/
theorem eq_of_accepts_eq (h : d.Alike d')
    (haccepts : ∀ w, Word.Over d.alphabet w → d.accepts w = d'.accepts w) : d = d' := by
  refine eq_of_run?_eq h.total h.total' h.alphabet_eq (fun s hs => ?_) (fun s hs => ?_) h.run?_eq
    fun w => ?_
  · obtain ⟨w, hw⟩ := h.numbered.reached s hs
    exact ⟨w, hw.1⟩
  · obtain ⟨w, hw⟩ := h.numbered'.reached s hs
    exact ⟨w, hw.1⟩
  · by_cases hw : Word.Over d.alphabet w
    · exact haccepts w hw
    · -- Both refuse a word with another symbol.
      have hrefused : ¬ d.accepts w = true := mt over_of_accepts hw
      have hrefused' : ¬ d'.accepts w = true := mt over_of_accepts (h.alphabet_eq ▸ hw)
      rw [Bool.eq_false_iff.2 hrefused, Bool.eq_false_iff.2 hrefused']

end Alike

/-! ## Products -/

/-- `d.IsProduct a b op` says that the states of `d` are numbered by words and stand for pairs of
states of `a` and `b`, and that `d` gives the combination of the answers of `a` and `b`. -/
structure IsProduct (d a b : Dfa) (op : Combination) : Prop where
  alphabet_eq : d.alphabet = a.alphabet
  total : d.isTotal = true
  numbered : d.NumberedByWords d.size
  same_iff : ∀ u v, Word.Over a.alphabet u → Word.Over a.alphabet v →
    (d.run? u = d.run? v ↔ a.run? u = a.run? v ∧ b.run? u = b.run? v)
  accepts_eq : ∀ w, Word.Over a.alphabet w → d.accepts w = op.accepts (a.accepts w) (b.accepts w)

/-- There is one such automaton. -/
theorem IsProduct.unique (h : d.IsProduct a b op) (h' : d'.IsProduct a b op) : d = d' := by
  have halike : d.Alike d' :=
    { total := h.total
      total' := h'.total
      alphabet_eq := h.alphabet_eq.trans h'.alphabet_eq.symm
      numbered := h.numbered
      numbered' := h'.numbered
      same_iff := fun u v hu hv => by
        rw [h.alphabet_eq] at hu hv
        rw [h.same_iff u v hu hv, h'.same_iff u v hu hv] }
  refine halike.eq_of_accepts_eq fun w hw => ?_
  rw [h.alphabet_eq] at hw
  rw [h.accepts_eq w hw, h'.accepts_eq w hw]

section Product

variable (ha : a.isTotal = true) (hb : b.isTotal = true) (hab : a.alphabet = b.alphabet)
include ha hb hab

theorem isProduct_product (hd : a.product b op limits = .ok d) : d.IsProduct a b op :=
  have hpairs := standsForPairs_product ha hb hab hd
  { alphabet_eq := hpairs.alphabet_eq
    total := hpairs.total
    numbered := numberedByWords_product ha hb hab hd
    same_iff := hpairs.same_iff
    accepts_eq := hpairs.accepts_eq }

/-- Without a budget, the product of two total automata is the automaton whose states are numbered
by words and stand for the pairs, and that gives the combination of the answers. -/
theorem product_eq_ok_iff_isProduct (hlimits : limits.productStates = none) :
    a.product b op limits = .ok d ↔ d.IsProduct a b op := by
  constructor
  · exact isProduct_product ha hb hab
  · intro h
    obtain ⟨d', hd'⟩ := exists_product op ha hb hab hlimits
    rw [hd', h.unique (isProduct_product ha hb hab hd')]

end Product

/-- An automaton whose states are numbered by words is its own product under a combination that
gives an answer back when it is given twice. -/
theorem NumberedByWords.isProduct_self (htotal : d.isTotal = true) (h : d.NumberedByWords d.size)
    (hop : ∀ answer, op.accepts answer answer = answer) : d.IsProduct d d op where
  alphabet_eq := rfl
  total := htotal
  numbered := h
  same_iff _ _ _ _ := and_self_iff.symm
  accepts_eq w _ := (hop (d.accepts w)).symm

/-- The states of the product of two total automata over one alphabet are numbered in the order of
the least words that lead to them, so its intersection and its union with itself are the product
again. The states of a determinised automaton are numbered in this order as well, up to the state
of the runs that are dead. If there is one, it is the sink, and it is the last. -/
theorem states_numberedByWords :
    (∀ (a b : Dfa) (op : Combination) (limits : Limits) (p : Dfa), a.isTotal = true →
      b.isTotal = true → a.alphabet = b.alphabet → a.product b op limits = .ok p →
      p.NumberedByWords p.size ∧ p.product p .intersection {} = .ok p ∧
        p.product p .union {} = .ok p) ∧
    ∀ (n : Nfa) (alphabet : Alphabet) (limits : Limits) (d : Dfa), n.Closed →
      ofNfa n alphabet limits = .ok d →
      ∃ live, d.NumberedByWords live ∧ live ≤ d.size ∧ d.size ≤ live + 1 ∧
        (∀ w, Word.Over alphabet w → (d.run? w = some live ↔ n.run w = ∅)) ∧
        (live < d.size → d.states[live]? = some (sink alphabet live)) := by
  constructor
  · intro a b op limits p ha hb hab hp
    have hnumbered := numberedByWords_product ha hb hab hp
    have htotal := isTotal_product ha hb hab hp
    refine ⟨hnumbered, ?_, ?_⟩
    · exact (product_eq_ok_iff_isProduct htotal htotal rfl rfl).2
        (hnumbered.isProduct_self htotal Bool.and_self)
    · exact (product_eq_ok_iff_isProduct htotal htotal rfl rfl).2
        (hnumbered.isProduct_self htotal Bool.or_self)
  · intro n alphabet limits d hclosed hd
    obtain ⟨found, hfound, -, rfl⟩ := ofNfa_eq_ok_iff.1 hd
    have hsize := @size_ofSubsets n alphabet found
    refine ⟨found.size, numberedByWords_ofSubsets hclosed hfound, by omega, ?_,
      fun w hw => run?_eq_sink_iff hclosed hfound hw, states_sink⟩
    rw [hsize]
    split <;> omega

/-- The product of the words with an odd number of `a` and those that end with `b` has four states,
the last of them for the pair after `ab`. The automaton of the one word `ab` has three states, and
behind them the sink, to which `b` leads. -/
theorem states_numberedByWords_four :
    oddCount.isTotal = true ∧ endsWithB.isTotal = true ∧ oddCount.alphabet = endsWithB.alphabet ∧
      (Nfa.ofRegex (.cat (.symbol 'a') (.symbol 'b'))).Closed ∧
      (∃ p, oddCount.product endsWithB .union {} = .ok p ∧ p.size = 4 ∧ p.NumberedByWords 4 ∧
        p.run? ['a', 'b'] = some 3 ∧ p.product p .intersection {} = .ok p ∧
        p.product p .union {} = .ok p) ∧
      ∃ d, ofNfa (.ofRegex (.cat (.symbol 'a') (.symbol 'b'))) (.ofList ['a', 'b']) {} = .ok d ∧
        d.size = 4 ∧ d.NumberedByWords 3 ∧ d.run? ['b'] = some 3 ∧
        d.states[3]? = some (sink (.ofList ['a', 'b']) 3) := by
  have hodd : oddCount.isTotal = true := by decide +kernel
  have hends : endsWithB.isTotal = true := by decide +kernel
  have hclosed := Nfa.closed_ofRegex (.cat (.symbol 'a') (.symbol 'b'))
  have hp : oddCount.product endsWithB .union {} = .ok ⟨.ofList ['a', 'b'], 0,
      #[⟨false, [1, 2]⟩, ⟨true, [0, 3]⟩, ⟨true, [1, 2]⟩, ⟨true, [0, 3]⟩]⟩ := by decide +kernel
  have hd : ofNfa (.ofRegex (.cat (.symbol 'a') (.symbol 'b'))) (.ofList ['a', 'b']) {} =
      .ok ⟨.ofList ['a', 'b'], 0, #[⟨false, [1, 3]⟩, ⟨false, [3, 2]⟩, ⟨true, [3, 3]⟩,
        ⟨false, [3, 3]⟩]⟩ := by decide +kernel
  have hb : Word.Over (.ofList ['a', 'b']) ['b'] := List.forall_mem_singleton.2 (by decide +kernel)
  have hdead : (Nfa.ofRegex (.cat (.symbol 'a') (.symbol 'b'))).run ['b'] = ∅ := by decide +kernel
  obtain ⟨hnumbered, hmeet, hjoin⟩ :=
    states_numberedByWords.1 oddCount endsWithB .union {} _ hodd hends rfl hp
  obtain ⟨live, hlive, -, -, hsink, hlast⟩ := states_numberedByWords.2 _ _ _ _ hclosed hd
  obtain rfl : 3 = live := Option.some.inj ((hsink ['b'] hb).2 hdead)
  exact ⟨hodd, hends, rfl, hclosed, ⟨_, hp, rfl, hnumbered, by decide +kernel, hmeet, hjoin⟩,
    _, hd, rfl, hlive, (hsink ['b'] hb).2 hdead, hlast (by decide)⟩

end Dfa

end RegexEquiv
