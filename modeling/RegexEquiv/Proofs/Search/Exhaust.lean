import RegexEquiv.Proofs.Except
import RegexEquiv.Proofs.Search.Reach

/-!
# Searches come to an end

A search takes up the nodes that it has found until none is left. `Graph.Exhausts` describes this
without any bound on the number of rounds. `Graph.reach_exhausts` says that for a graph that is as
small as its bound promises it comes to an end, with just what `Graph.reach` gives. So the bound
never cuts a search off.
-/

namespace RegexEquiv.Graph

variable {σ ℓ : Type} [Ord σ] [Std.TransOrd σ] [Std.LawfulEqOrd σ]

/-- The guard of a search that nothing stops. -/
def unguarded : Guard σ ℓ Empty := fun _ _ => .ok ()

/-- `g.Exhausts found next result` says that taking up the found nodes from number `next` on, until
there is none left, comes to an end when `result` has been found. -/
inductive Exhausts (g : Graph σ ℓ) : Discovery σ ℓ → Nat → Discovery σ ℓ → Prop where
  | done {found : Discovery σ ℓ} {next : Nat} :
      found.visits[next]? = none → Exhausts g found next found
  | takeUp {found mid result : Discovery σ ℓ} {v : Visit σ ℓ} {next : Nat} :
      found.visits[next]? = some v → g.expand unguarded found v = .ok mid →
      Exhausts g mid (next + 1) result → Exhausts g found next result

variable {g : Graph σ ℓ} {starts : List σ}

/-- From nodes to which labels lead, exploring ends when no found node is left. -/
theorem explore_exhausts (hfits : g.Fits starts) {found result : Discovery σ ℓ} {next : Nat}
    (h : g.Accessed starts found (g.waiting found next))
    (hresult : g.explore unguarded found next = .ok result) : g.Exhausts found next result := by
  fun_induction explore g unguarded found next with
  | case1 found next hlt hnone =>
      obtain rfl := Except.ok.inj hresult
      exact .done hnone
  | case2 found next hlt v hv ih =>
      obtain ⟨mid, hmid, hrest⟩ := Except.bind_eq_ok_iff.1 hresult
      have hsize : next < found.size := (Array.getElem?_eq_some_iff.1 hv).1
      rw [waiting_of_getElem? hv] at h
      have hkept : g.Kept unguarded (g.Accessed starts) := accessed_kept
      have hfold := foldlM_visit hkept hsize h
      rw [← expand_eq, hmid] at hfold
      obtain ⟨after, hafter, hafterAccess⟩ | ⟨reason, -, -, -, herror, -⟩ := hfold
      · obtain rfl := Except.ok.inj hafter
        exact .takeUp hv hmid (ih mid hafterAccess hrest)
      · cases herror
  | case3 found next hlt =>
      obtain rfl := Except.ok.inj hresult
      -- Where the bound is reached, all nodes to which labels lead have been taken up.
      have hsize : found.visits.size ≤ next := Nat.le_trans (h.size_le hfits) (Nat.not_lt.1 hlt)
      exact .done (Array.getElem?_eq_none hsize)

/-- What a search reaches is what the search that nothing stops gives. -/
theorem search_unguarded (g : Graph σ ℓ) (starts : List σ) :
    g.search unguarded starts = .ok (g.reach starts) := by
  unfold reach
  split
  · assumption
  · rename_i reason _
    exact nomatch reason

/-- Visits add their nodes, and no others. -/
theorem mem_nodes_of_foldlM_visit {ε : Type} {guard : Guard σ ℓ ε} {visits : List (Visit σ ℓ)}
    {found after : Discovery σ ℓ} (h : visits.foldlM (Discovery.visit guard) found = .ok after)
    {x : σ} : x ∈ after.nodes ↔ x ∈ found.nodes ∨ ∃ v ∈ visits, v.node = x := by
  induction visits generalizing found with
  | nil =>
      obtain rfl := Except.ok.inj h
      simp
  | cons v visits ih =>
      obtain ⟨mid, hmid, hrest⟩ := Except.bind_eq_ok_iff.1 h
      rw [ih hrest]
      by_cases hmem : v.node ∈ found.nodes
      · rw [Discovery.visit_of_mem hmem] at hmid
        obtain rfl := Except.ok.inj hmid
        simp only [List.mem_cons, exists_eq_or_imp, ← or_assoc]
        rw [or_iff_left_of_imp (b := v.node = x) fun hx => hx ▸ hmem]
      · have hnone := Discovery.numbers_eq_none_iff.2 hmem
        rw [Discovery.visit_of_none hnone] at hmid
        obtain ⟨-, -, rfl⟩ := Except.map_eq_ok_iff.1 hmid
        simp [or_assoc, eq_comm]

/-- A search takes up the starts that it has found, and then found nodes until none is left. -/
theorem reach_exhausts_starts (hfits : g.Fits starts) :
    ∃ first : Discovery σ ℓ, (∀ x, x ∈ first.nodes ↔ x ∈ starts) ∧
      g.Exhausts first 0 (g.reach starts) := by
  have hkept : g.Kept unguarded (g.Accessed starts) := accessed_kept
  have hqueue : (starts.map fun x => (⟨x, []⟩ : Visit σ ℓ)) ++ g.waiting .empty 0 =
      starts.map fun x => ⟨x, []⟩ := List.append_nil _
  have hfold := foldlM_visit hkept (Nat.zero_le _) (by rw [hqueue]; exact accessed_start)
  obtain ⟨first, hfirst, haccess⟩ | ⟨reason, -, -, -, -, -⟩ := hfold
  · have hmem : ∀ x, x ∈ first.nodes ↔ x ∈ starts := fun x => by
      rw [mem_nodes_of_foldlM_visit hfirst, Discovery.nodes_empty]
      constructor
      · rintro (hx | ⟨v, hv, rfl⟩)
        · cases hx
        · obtain ⟨x, hx, rfl⟩ := List.mem_map.1 hv
          exact hx
      · exact fun hx => .inr ⟨_, List.mem_map_of_mem hx, rfl⟩
    have hsearch := g.search_unguarded starts
    rw [List.foldlM_map] at hfirst
    rw [search, hfirst] at hsearch
    exact ⟨first, hmem, explore_exhausts hfits haccess hsearch⟩
  · exact nomatch reason

/-- From one node, a search takes up found nodes until none is left. -/
theorem reach_exhausts {start : σ} (hfits : g.Fits [start]) :
    ∃ first : Discovery σ ℓ, first.nodes = [start] ∧ g.Exhausts first 0 (g.reach [start]) := by
  obtain ⟨first, hmem, hexhausts⟩ := reach_exhausts_starts hfits
  have hperm : first.nodes.Perm [start] :=
    (List.perm_ext_iff_of_nodup first.nodup_nodes (List.pairwise_singleton _ start)).2 hmem
  exact ⟨first, List.perm_singleton.1 hperm, hexhausts⟩

end RegexEquiv.Graph
