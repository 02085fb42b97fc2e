import RegexEquiv.Proofs.Search.Queue

/-!
# What a search finds

A search that the guard does not stop finds exactly the nodes to which some labels lead:
`Graph.mem_nodes_of_search`, and `Graph.mem_reach` for the search without a guard. The first node
that it finds is the first from which it starts.
-/

namespace RegexEquiv.Graph

variable {σ ℓ ε : Type} [Ord σ] [Std.TransOrd σ] [Std.LawfulEqOrd σ]
  {g : Graph σ ℓ} {guard : Guard σ ℓ ε} {starts : List σ}

/-- All starts, and all that a step from a found node leads to, are found or queued. -/
structure Covered (g : Graph σ ℓ) (starts : List σ) (found : Discovery σ ℓ)
    (queue : List (Visit σ ℓ)) : Prop where
  start : ∀ x ∈ starts, x ∈ found.nodes ∨ ∃ v ∈ queue, v.node = x
  step : ∀ x ∈ found.nodes, ∀ edge ∈ g.edges x,
    edge.2 ∈ found.nodes ∨ ∃ v ∈ queue, v.node = edge.2

/-- Every step keeps starts and successors found or queued. -/
theorem covered_kept : g.Kept guard (g.Covered starts) where
  known {found v queue} h hmem := by
    -- The dropped visit covered no node but its own, which is found.
    have hdrop : ∀ x, (x ∈ found.nodes ∨ ∃ u ∈ v :: queue, u.node = x) →
        x ∈ found.nodes ∨ ∃ u ∈ queue, u.node = x := by
      intro x hx
      rcases hx with hx | ⟨u, hu, rfl⟩
      · exact .inl hx
      · obtain rfl | hu := List.mem_cons.1 hu
        · exact .inl hmem
        · exact .inr ⟨u, hu, rfl⟩
    exact ⟨fun x hx => hdrop x (h.start x hx), fun x hx edge he => hdrop _ (h.step x hx edge he)⟩
  fresh {found v queue} hnone h _ := by
    have hmove : ∀ x, (x ∈ found.nodes ∨ ∃ u ∈ v :: queue, u.node = x) →
        x ∈ (found.add v hnone).nodes ∨ ∃ u ∈ queue ++ g.successors v, u.node = x := by
      intro x hx
      rcases hx with hx | ⟨u, hu, rfl⟩
      · exact .inl (by simp [hx])
      · obtain rfl | hu := List.mem_cons.1 hu
        · exact .inl (by simp)
        · exact .inr ⟨u, List.mem_append_left _ hu, rfl⟩
    refine ⟨fun x hx => hmove x (h.start x hx), fun x hx edge he => ?_⟩
    rw [Discovery.nodes_add, List.mem_append, List.mem_singleton] at hx
    obtain hx | rfl := hx
    · exact hmove _ (h.step x hx edge he)
    · have hu : (⟨edge.2, edge.1 :: v.trail⟩ : Visit σ ℓ) ∈ g.successors v :=
        List.mem_map.2 ⟨edge, he, rfl⟩
      exact .inr ⟨_, List.mem_append_right _ hu, rfl⟩

omit [Std.LawfulEqOrd σ] in
/-- Before the search, all starts are queued. -/
theorem covered_start : g.Covered starts .empty (starts.map fun x => ⟨x, []⟩) where
  start _ hx := .inr ⟨_, List.mem_map_of_mem hx, rfl⟩
  step := nofun

omit [Std.TransOrd σ] [Std.LawfulEqOrd σ] in
/-- Once the queue is empty, every node to which labels lead is found. -/
theorem Covered.mem_nodes {found : Discovery σ ℓ} (h : g.Covered starts found []) {w : List ℓ}
    {x : σ} (hx : g.Access starts w x) : x ∈ found.nodes := by
  induction hx with
  | start hx => simpa using h.start _ hx
  | step _ he ih => simpa using h.step _ ih _ he

/-- The first of the nodes found and queued is the first start. -/
theorem head_kept (starts : List σ) : g.Kept guard fun found queue =>
    (found.nodes ++ queue.map Visit.node).head? = starts.head? where
  known {found v queue} h hmem := by
    obtain ⟨x, nodes, hnodes⟩ := List.exists_cons_of_ne_nil (List.ne_nil_of_mem hmem)
    simpa [hnodes] using h
  fresh hnone h _ := by simpa [List.head?_append] using h

/-- A search that is not stopped finds exactly the nodes to which labels lead. -/
theorem mem_nodes_of_search (hfits : g.Fits starts) {found : Discovery σ ℓ}
    (h : g.search guard starts = .ok found) {x : σ} :
    x ∈ found.nodes ↔ ∃ w, g.Access starts w x := by
  have hend : Outcome guard _ (g.search guard starts) :=
    search_outcome covered_kept hfits covered_start
  rw [h] at hend
  cases hend with
  | done hend =>
      obtain ⟨haccess, hcovered⟩ := hend
      constructor
      · intro hx
        obtain ⟨v, hv, rfl⟩ := Discovery.mem_nodes.1 hx
        exact ⟨v.word, haccess v (List.mem_append_left _ hv)⟩
      · intro h
        obtain ⟨w, hw⟩ := h
        exact hcovered.mem_nodes hw

/-- A search that is not stopped finds its first start first. -/
theorem head?_nodes_of_search (hfits : g.Fits starts) {found : Discovery σ ℓ}
    (h : g.search guard starts = .ok found) : found.nodes.head? = starts.head? := by
  have hend : Outcome guard _ (g.search guard starts) :=
    search_outcome (head_kept starts) hfits (by simp [Function.comp_def])
  rw [h] at hend
  cases hend with
  | done hend => simpa using hend.2

/-- A guard that always agrees stops no search. -/
theorem exists_search_eq_ok (hfits : g.Fits starts) (hguard : ∀ count v, guard count v = .ok ()) :
    ∃ found, g.search guard starts = .ok found := by
  have hend : Outcome guard _ (g.search guard starts) :=
    search_outcome covered_kept hfits covered_start
  revert hend
  cases g.search guard starts with
  | ok found => exact fun _ => ⟨found, rfl⟩
  | error reason =>
      intro hend
      cases hend with
      | stopped hstopped =>
          have hrefused := hstopped.refused
          rw [hguard] at hrefused
          cases hrefused

/-- Reaching finds exactly the nodes to which labels lead. -/
theorem mem_reach (hfits : g.Fits starts) {x : σ} :
    x ∈ (g.reach starts).nodes ↔ ∃ w, g.Access starts w x := by
  unfold reach
  split
  · rename_i found hfound
    exact mem_nodes_of_search hfits hfound
  · rename_i reason _
    exact nomatch reason

end RegexEquiv.Graph
