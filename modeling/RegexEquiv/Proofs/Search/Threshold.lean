import Mathlib.Data.Set.Card
import RegexEquiv.Proofs.Budget
import RegexEquiv.Proofs.Search.Count

/-!
# The smallest budget within which a search ends

A search asks its budget once for every node that it finds, so the budget has to be at least the
number of these nodes, and then it changes nothing: `Graph.search_budget`. A set with the members of
a list has as many of them as the list is long, if nothing is listed twice; so the nodes found count
the nodes to which words lead (`Graph.ncard_access`).
-/

namespace RegexEquiv

/-! ## Counting with lists -/

section Lists

variable {α : Type} {s : Set α} {l : List α}

theorem ncard_eq_length (hnodup : l.Nodup) (hmem : ∀ x, x ∈ l ↔ x ∈ s) : s.ncard = l.length := by
  classical
  have hs : s = (l.toFinset : Set α) := by
    ext x
    rw [Finset.mem_coe, List.mem_toFinset, hmem]
  rw [hs, Set.ncard_coe_finset, List.toFinset_card_of_nodup hnodup]

theorem ncard_le_length (hmem : ∀ x ∈ s, x ∈ l) : s.ncard ≤ l.length := by
  classical
  have hs : s ⊆ (l.toFinset : Set α) := by
    intro x hx
    rw [Finset.mem_coe, List.mem_toFinset]
    exact hmem x hx
  calc s.ncard ≤ (l.toFinset : Set α).ncard := Set.ncard_le_ncard hs l.toFinset.finite_toSet
    _ = l.toFinset.card := Set.ncard_coe_finset _
    _ ≤ l.length := l.toFinset_card_le

end Lists

/-! ## Searches for all nodes -/

namespace Graph

variable {σ ε : Type} [Ord σ] [Std.TransOrd σ] [Std.LawfulEqOrd σ] {g : Graph σ Char}
  {starts : List σ} {found : Discovery σ Char}

/-- A search that ends finds as many nodes as there are nodes to which words lead. -/
theorem ncard_access {guard : Guard σ Char ε} (hfits : g.Fits starts)
    (h : g.search guard starts = .ok found) :
    {x | ∃ w, g.Access starts w x}.ncard = found.size := by
  rw [← Discovery.nodes_length]
  exact ncard_eq_length found.nodup_nodes fun x => mem_nodes_of_search hfits h

/-- If a guard lets only numbers below a limit pass, a search that ends finds no more nodes than
that. -/
theorem size_le_of_passed {guard : Guard σ Char ε} {limit : Nat} (hfits : g.Fits starts)
    (h : g.search guard starts = .ok found)
    (hguard : ∀ count v, guard count v = .ok () → count < limit) : found.size ≤ limit := by
  by_contra hless
  obtain ⟨v, hok⟩ := search_allowed hfits h (Nat.lt_of_not_le hless)
  exact Nat.lt_irrefl limit (hguard limit v hok)

/-- Under a budget a search fails when the budget is smaller than the number of nodes that it finds
without one, and otherwise it finds the same. -/
theorem search_budget {stage : Stage} {limits : Limits} {limit : Nat} (hfits : g.Fits starts)
    (hfound : g.search (fun count _ => stage.allow {} count) starts = .ok found)
    (hlimit : stage.limit? limits = some limit) :
    g.search (fun count _ => stage.allow limits count) starts =
      if limit < found.size then .error (.overBudget stage limit) else .ok found := by
  obtain heq | ⟨_, ⟨limit', hlimit', rfl⟩, herror⟩ :=
    g.search_agrees (fun count _ => Stage.allow_agrees limits.le_unlimited stage count) starts
  · have hend := heq.trans hfound
    have henough : found.size ≤ limit :=
      size_le_of_passed hfits hend fun _ _ hallowed => (Stage.allow_eq_ok_iff hlimit).1 hallowed
    rw [hend, if_neg (Nat.not_lt.2 henough)]
  · -- The number that was refused is at least the budget and below that of the nodes.
    rw [hlimit] at hlimit'
    obtain rfl := Option.some.inj hlimit'
    obtain ⟨count, hcount, _, hrefused⟩ := search_refused_lt hfits herror fun w x hx =>
      (mem_nodes_of_search hfits hfound).2 ⟨w, hx⟩
    rw [Discovery.nodes_length] at hcount
    have hexceeded := ((Stage.allow_eq_error_iff hlimit).1 hrefused).1
    rw [herror, if_pos (Nat.lt_of_le_of_lt hexceeded hcount)]

end Graph

end RegexEquiv
