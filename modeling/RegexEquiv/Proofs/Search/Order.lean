import Mathlib.Data.List.Induction
import Mathlib.Data.List.Nodup
import RegexEquiv.Proofs.Search.Queue
import RegexEquiv.Proofs.Word.Order

/-!
# Least words of a search

In a graph whose edges out of a node have different symbols, in increasing order, a search from one
node queues words in their order. So it finds every node by the least word that leads to it, and it
takes the nodes in the order of these words (`Graph.search_leastWords`). `Graph.search_stoppedAt`
draws the consequence for a search that the guard stops: the nodes taken up until then are those to
which words lead that come no later than the word of the refused node.
-/

namespace RegexEquiv.Graph

variable {σ ε : Type} [Ord σ] {g : Graph σ Char} {s : σ}

/-- The edges out of each node have increasing symbols. -/
def Ascending (g : Graph σ Char) : Prop :=
  ∀ x, ((g.edges x).map Prod.fst).Pairwise (· < ·)

/-- A visit is queued, or its node is found by a word that comes no later. -/
def Settled (found : Discovery σ Char) (queue : List (Visit σ Char)) (u : Visit σ Char) : Prop :=
  u ∈ queue ∨ ∃ t ∈ found.visits.toList, t.node = u.node ∧ Word.NoLater t.word u.word

/-- The words of a search from `s`, found ones before queued ones, are in order, and every queued
word prolongs that of a found node. -/
structure InOrder (g : Graph σ Char) (s : σ) (found : Discovery σ Char)
    (queue : List (Visit σ Char)) : Prop where
  ascending : (found.visits.toList ++ queue).Pairwise fun u v => Word.Before u.word v.word
  parent : ∀ v ∈ queue, v.word = [] ∨ ∃ u ∈ found.visits.toList, ∃ c, v.word = u.word ++ [c]
  start : Settled found queue ⟨s, []⟩
  step : ∀ v ∈ found.visits.toList, ∀ u ∈ g.successors v, Settled found queue u

omit [Ord σ] in
/-- The words that a visit queues are in order and prolong its own. -/
theorem Ascending.successors (h : g.Ascending) (v : Visit σ Char) :
    (g.successors v).Pairwise fun t u => Word.Before t.word u.word := by
  have hlabels := List.pairwise_map.1 (h v.node)
  refine List.pairwise_map.2 (hlabels.imp fun hlt => ?_)
  simpa [Visit.word] using Word.before_concat_of_lt v.word hlt

omit [Ord σ] in
theorem word_of_mem_successors {v u : Visit σ Char} (h : u ∈ g.successors v) :
    ∃ c, u.word = v.word ++ [c] := by
  obtain ⟨⟨c, x⟩, -, rfl⟩ := List.mem_map.1 h
  exact ⟨c, by simp [Visit.word]⟩

omit [Ord σ] in
/-- A word leads to one node at most, since no two edges out of a node have the same symbol. -/
theorem Ascending.access_unique (h : g.Ascending) {w : Word} {x y : σ} (hx : g.Access [s] w x)
    (hy : g.Access [s] w y) : x = y := by
  induction w using List.reverseRecOn generalizing x y with
  | nil =>
      rw [access_nil_iff, List.mem_singleton] at hx hy
      rw [hx, hy]
  | append_singleton w c ih =>
      obtain ⟨p, hp, hedge⟩ := access_concat_iff.1 hx
      obtain ⟨q, hq, hedge'⟩ := access_concat_iff.1 hy
      obtain rfl := ih hp hq
      have hnodup : ((g.edges p).map Prod.fst).Nodup := (h p).imp Char.ne_of_lt
      exact congrArg Prod.snd (List.inj_on_of_nodup_map hnodup hedge hedge' rfl)

/-- A word that leads to a node is preceded by the word by which the node is found, or by a word
still queued. -/
theorem InOrder.covers {found : Discovery σ Char} {queue : List (Visit σ Char)}
    (h : g.InOrder s found queue) {w : Word} {x : σ} (hx : g.Access [s] w x) :
    (∃ v ∈ found.visits.toList, v.node = x ∧ Word.NoLater v.word w) ∨
      ∃ v ∈ queue, Word.NoLater v.word w := by
  induction hx with
  | start hx =>
      obtain rfl := List.mem_singleton.1 hx
      obtain hqueued | hfound := h.start
      · exact .inr ⟨_, hqueued, .refl []⟩
      · exact .inl hfound
  | @step w c x y _ hedge ih =>
      obtain ⟨v, hv, rfl, hle⟩ | ⟨v, hv, hle⟩ := ih
      · have hu : (⟨y, c :: v.trail⟩ : Visit σ Char) ∈ g.successors v :=
          List.mem_map.2 ⟨(c, y), hedge, rfl⟩
        have hword : Word.NoLater (Visit.word ⟨y, c :: v.trail⟩) (w ++ [c]) := by
          simpa [Visit.word] using hle.concat c
        obtain hqueued | ⟨t, ht, hnode, hlet⟩ := h.step v hv _ hu
        · exact .inr ⟨_, hqueued, hword⟩
        · exact .inl ⟨t, ht, hnode, hlet.trans hword⟩
      · exact .inr ⟨v, hv, hle.trans (.inr (Word.before_concat w c))⟩

variable [Std.TransOrd σ] [Std.LawfulEqOrd σ] {guard : Guard σ Char ε}

/-- Every step keeps the words of a search in order. -/
theorem inOrder_kept (hasc : g.Ascending) : g.Kept guard (g.InOrder s) where
  known {found v queue} h hmem := by
    obtain ⟨t, ht, hnode⟩ := Discovery.mem_nodes.1 hmem
    have hbefore : Word.Before t.word v.word :=
      (List.pairwise_append.1 h.ascending).2.2 t ht v List.mem_cons_self
    have hdrop : ∀ u, Settled found (v :: queue) u → Settled found queue u := by
      intro u hu
      rcases hu with hu | hu
      · obtain rfl | hu := List.mem_cons.1 hu
        · exact .inr ⟨t, ht, hnode, .inr hbefore⟩
        · exact .inl hu
      · exact .inr hu
    exact
      { ascending := h.ascending.sublist ((List.sublist_cons_self v queue).append_left _)
        parent := fun u hu => h.parent u (List.mem_cons_of_mem v hu)
        start := hdrop _ h.start
        step := fun u hu t ht => hdrop t (h.step u hu t ht) }
  fresh {found v queue} hnone h _ := by
    obtain ⟨-, htail, hcross⟩ := List.pairwise_append.1 h.ascending
    have hmove : ∀ u, Settled found (v :: queue) u →
        Settled (found.add v hnone) (queue ++ g.successors v) u := by
      intro u hu
      rcases hu with hu | ⟨t, ht, hnode, hle⟩
      · obtain rfl | hu := List.mem_cons.1 hu
        · exact .inr ⟨u, by simp, rfl, .refl _⟩
        · exact .inl (List.mem_append_left _ hu)
      · exact .inr ⟨t, by simp [ht], hnode, hle⟩
    -- A queued word prolongs one that comes before `v`, so the new words come after it.
    have hlast : ∀ t ∈ found.visits.toList ++ v :: queue, ∀ u ∈ g.successors v,
        Word.Before t.word u.word := by
      intro t ht u hu
      obtain ⟨c, hc⟩ := word_of_mem_successors hu
      have hv : Word.Before v.word u.word := hc ▸ Word.before_concat v.word c
      obtain ht | ht := List.mem_append.1 ht
      · exact (hcross t ht v List.mem_cons_self).trans hv
      · obtain rfl | ht := List.mem_cons.1 ht
        · exact hv
        · obtain hnil | ⟨p, hp, d, hd⟩ := h.parent t (List.mem_cons_of_mem v ht)
          · exact .inl (by simp [hnil, hc])
          · rw [hd, hc]
            exact (hcross p hp v List.mem_cons_self).concat d c
    refine ⟨?_, ?_, hmove _ h.start, ?_⟩
    · rw [Discovery.visits_add, List.append_assoc, List.singleton_append, ← List.cons_append,
        ← List.append_assoc]
      exact List.pairwise_append.2 ⟨h.ascending, hasc.successors v, hlast⟩
    · intro u hu
      obtain hu | hu := List.mem_append.1 hu
      · obtain hnil | ⟨p, hp, c, hc⟩ := h.parent u (List.mem_cons_of_mem v hu)
        · exact .inl hnil
        · exact .inr ⟨p, by simp [hp], c, hc⟩
      · obtain ⟨c, hc⟩ := word_of_mem_successors hu
        exact .inr ⟨v, by simp, c, hc⟩
    · intro u hu t ht
      rw [Discovery.visits_add, List.mem_append, List.mem_singleton] at hu
      obtain hu | rfl := hu
      · exact hmove t (h.step u hu t ht)
      · exact .inl (List.mem_append_right _ ht)

omit [Std.LawfulEqOrd σ] in
/-- Before the search, only the empty word is queued. -/
theorem inOrder_start : g.InOrder s .empty [⟨s, []⟩] where
  ascending := List.pairwise_singleton _ _
  parent v hv := .inl (by rw [List.mem_singleton.1 hv]; rfl)
  start := .inl (List.mem_singleton.2 rfl)
  step := nofun

/-- Every found node has passed the guard, with the number of nodes found before it. -/
def Passed (guard : Guard σ Char ε) (found : Discovery σ Char) (_ : List (Visit σ Char)) : Prop :=
  ∀ (i : Nat) (v : Visit σ Char), found.visits[i]? = some v → guard i v = .ok ()

theorem passed_kept : g.Kept guard (Passed guard) where
  known h _ := h
  fresh {found v _} hnone h hguard := by
    intro i u hu
    simp only [Discovery.add, Array.getElem?_push] at hu
    split at hu
    · rename_i hi
      obtain rfl := Option.some.inj hu
      exact hi ▸ hguard
    · exact h i u hu

omit [Std.TransOrd σ] [Std.LawfulEqOrd σ] in
theorem Passed.of_mem {found : Discovery σ Char} {queue : List (Visit σ Char)}
    (h : Passed guard found queue) {v : Visit σ Char} (hv : v ∈ found.visits.toList) :
    ∃ count, guard count v = .ok () := by
  obtain ⟨i, hi⟩ := List.mem_iff_getElem?.1 hv
  rw [Array.getElem?_toList] at hi
  exact ⟨i, h i v hi⟩

/-- No queued word is longer than the number of nodes found. -/
def Short (found : Discovery σ Char) (queue : List (Visit σ Char)) : Prop :=
  ∀ v ∈ queue, v.word.length ≤ found.size

theorem short_kept : g.Kept guard Short where
  known h _ v hv := h v (List.mem_cons_of_mem _ hv)
  fresh {found v queue} hnone h _ := by
    intro u hu
    rw [Discovery.size_add]
    obtain hu | hu := List.mem_append.1 hu
    · exact Nat.le_succ_of_le (h u (List.mem_cons_of_mem v hu))
    · obtain ⟨c, hc⟩ := word_of_mem_successors hu
      have hv := h v List.mem_cons_self
      rw [hc, List.length_append, List.length_singleton]
      omega

/-- A search from one node ends with its words in order and short and all found nodes past the
guard. -/
theorem search_inOrder (hasc : g.Ascending) (hfits : g.Fits [s]) :
    Outcome guard (fun found queue => g.Accessed [s] found queue ∧
      g.InOrder s found queue ∧ Passed guard found queue ∧ Short found queue)
      (g.search guard [s]) := by
  refine search_outcome ((inOrder_kept hasc).and (passed_kept.and short_kept)) hfits
    ⟨inOrder_start, ?_, ?_⟩
  · intro i v hv
    simp [Discovery.empty] at hv
  · intro v hv
    rw [List.mem_singleton.1 hv]
    exact Nat.zero_le _

/-- If the guard lets a search from one node end, each node to which a word leads has passed the
guard by a word that comes no later. -/
theorem search_done (hasc : g.Ascending) (hfits : g.Fits [s]) {found : Discovery σ Char}
    (h : g.search guard [s] = .ok found) {w : Word} {x : σ} (hx : g.Access [s] w x) :
    ∃ count v, guard count v = .ok () ∧ v.node = x ∧ Word.NoLater v.word w := by
  have hend : Outcome guard _ (g.search guard [s]) := search_inOrder hasc hfits
  rw [h] at hend
  cases hend with
  | done hend =>
      obtain ⟨-, horder, hpassed, -⟩ := hend
      obtain ⟨v, hv, hnode, hle⟩ | ⟨v, hv, -⟩ := horder.covers hx
      · obtain ⟨count, hok⟩ := hpassed.of_mem hv
        exact ⟨count, v, hok, hnode, hle⟩
      · cases hv

/-- A search from one node that ends has found each node by the least word that leads to it, and the
nodes in the order of these words. -/
theorem search_leastWords (hasc : g.Ascending) (hfits : g.Fits [s]) {found : Discovery σ Char}
    (h : g.search guard [s] = .ok found) :
    (found.visits.toList.Pairwise fun u v => Word.Before u.word v.word) ∧
      ∀ v ∈ found.visits.toList, Word.Least (fun w => g.Access [s] w v.node) v.word := by
  have hend : Outcome guard _ (g.search guard [s]) := search_inOrder hasc hfits
  rw [h] at hend
  cases hend with
  | done hend =>
      obtain ⟨haccess, horder, -, -⟩ := hend
      refine ⟨(List.pairwise_append.1 horder.ascending).1, fun v hv => ?_⟩
      refine .of_noLater (haccess v (List.mem_append_left _ hv)) fun w hw => ?_
      obtain ⟨u, hu, hnode, hle⟩ | ⟨u, hu, -⟩ := horder.covers hw
      · -- No node is found twice.
        obtain rfl := List.inj_on_of_nodup_map found.nodup_nodes hu hv hnode
        exact hle
      · cases hu

/-- `g.StoppedAt guard s reason nodes v` says that the guard stops a search from `s` at the visit
`v`, with `nodes` found before it. These nodes and the refused one are all different, and they are
the nodes to which words lead that come no later than that of `v`. -/
structure StoppedAt (g : Graph σ Char) (guard : Guard σ Char ε) (s : σ) (reason : ε)
    (nodes : List σ) (v : Visit σ Char) : Prop where
  refused : guard nodes.length v = .error reason
  access : g.Access [s] v.word v.node
  nodup : (v.node :: nodes).Nodup
  mem_iff : ∀ x, x ∈ v.node :: nodes ↔ ∃ w, g.Access [s] w x ∧ Word.NoLater w v.word
  passed : ∀ x ∈ nodes, ∃ count u, guard count u = .ok () ∧ u.node = x
  later : ∀ w x, g.Access [s] w x → x ∈ nodes ∨ Word.NoLater v.word w
  length_le : v.word.length ≤ nodes.length

/-- If the guard stops a search from one node, it does so at the first visit that it refuses. -/
theorem search_stoppedAt (hasc : g.Ascending) (hfits : g.Fits [s]) {reason : ε}
    (h : g.search guard [s] = .error reason) : ∃ nodes v, g.StoppedAt guard s reason nodes v := by
  have hend : Outcome guard _ (g.search guard [s]) := search_inOrder hasc hfits
  rw [h] at hend
  cases hend with
  | @stopped _ found v queue hstopped =>
      obtain ⟨⟨haccess, horder, hpassed, hshort⟩, hnew, hrefused⟩ := hstopped
      obtain ⟨-, hqueue, hcross⟩ := List.pairwise_append.1 horder.ascending
      have hv : g.Access [s] v.word v.node := haccess v (by simp)
      have hlater : ∀ w x, g.Access [s] w x → x ∈ found.nodes ∨ Word.NoLater v.word w := by
        intro w x hx
        obtain ⟨u, hu, hnode, -⟩ | ⟨u, hu, hle⟩ := horder.covers hx
        · exact .inl (Discovery.mem_nodes.2 ⟨u, hu, hnode⟩)
        · obtain rfl | hu := List.mem_cons.1 hu
          · exact .inr hle
          · -- The refused word is first in the queue, so the others come after it.
            exact .inr (Word.NoLater.trans (.inr ((List.pairwise_cons.1 hqueue).1 u hu)) hle)
      refine ⟨found.nodes, v, ?_, hv, List.nodup_cons.2 ⟨hnew, found.nodup_nodes⟩, fun x => ?_,
        fun x hx => ?_, hlater, ?_⟩
      · rwa [Discovery.nodes_length]
      · constructor
        · intro hx
          obtain rfl | hx := List.mem_cons.1 hx
          · exact ⟨v.word, hv, .refl _⟩
          · obtain ⟨u, hu, rfl⟩ := Discovery.mem_nodes.1 hx
            exact ⟨u.word, haccess u (List.mem_append_left _ hu),
              .inr (hcross u hu v List.mem_cons_self)⟩
        · intro hx
          obtain ⟨w, hw, hle⟩ := hx
          obtain hx | hge := hlater w x hw
          · exact List.mem_cons_of_mem _ hx
          · -- The word is that of the refused visit, which leads to one node only.
            obtain rfl := hle.antisymm hge
            rw [hasc.access_unique hw hv]
            exact List.mem_cons_self
      · obtain ⟨u, hu, hnode⟩ := Discovery.mem_nodes.1 hx
        obtain ⟨count, hok⟩ := hpassed.of_mem hu
        exact ⟨count, u, hok, hnode⟩
      · rw [Discovery.nodes_length]
        exact hshort v List.mem_cons_self

end RegexEquiv.Graph
