import RegexEquiv.Proofs.Search.Order
import RegexEquiv.Proofs.Search.Reach

/-!
# With which numbers a guard is asked

A search asks its guard once for every node that it adds, with the numbers from zero on. So a search
that ends has been allowed every number below the number of nodes found (`Graph.search_allowed`),
and a guard can only stop a search with a number below that of the nodes to which labels lead
(`Graph.search_refused_lt`).
-/

namespace RegexEquiv.Graph

variable {σ ε : Type} [Ord σ] [Std.TransOrd σ] [Std.LawfulEqOrd σ] {g : Graph σ Char}
  {guard : Guard σ Char ε} {starts : List σ}

/-- A search that ends has passed the guard with every number below that of the nodes found. -/
theorem search_allowed (hfits : g.Fits starts) {found : Discovery σ Char}
    (h : g.search guard starts = .ok found) {count : Nat} (hcount : count < found.size) :
    ∃ v, guard count v = .ok () := by
  have hend : Outcome guard _ (g.search guard starts) :=
    search_outcome passed_kept hfits fun i v hv => by simp [Discovery.empty] at hv
  rw [h] at hend
  cases hend with
  | done hend => exact ⟨found.visits[count], hend.2 count _ (Array.getElem?_eq_getElem hcount)⟩

/-- A guard that stops a search is asked with a number below that of the nodes to which labels
lead, since the node that it refuses is one of them and has not been found. -/
theorem search_refused_lt (hfits : g.Fits starts) {reason : ε}
    (h : g.search guard starts = .error reason) {nodes : List σ}
    (hnodes : ∀ w x, g.Access starts w x → x ∈ nodes) :
    ∃ count < nodes.length, ∃ v, guard count v = .error reason := by
  have hend : Outcome guard _ (g.search guard starts) :=
    search_outcome covered_kept hfits covered_start
  rw [h] at hend
  cases hend with
  | @stopped _ found v queue hstopped =>
      have haccess := hstopped.holds.1
      have hnodup : (v.node :: found.nodes).Nodup :=
        List.nodup_cons.2 ⟨hstopped.new, found.nodup_nodes⟩
      have hsub : v.node :: found.nodes ⊆ nodes := by
        intro x hx
        obtain rfl | hx := List.mem_cons.1 hx
        · exact hnodes _ _ (haccess v (by simp))
        · obtain ⟨u, hu, rfl⟩ := Discovery.mem_nodes.1 hx
          exact hnodes _ _ (haccess u (List.mem_append_left _ hu))
      have hlen := hnodup.length_le_of_subset hsub
      rw [List.length_cons, Discovery.nodes_length] at hlen
      exact ⟨found.size, hlen, v, hstopped.refused⟩

end RegexEquiv.Graph
