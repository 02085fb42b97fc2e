import RegexEquiv.Proofs.Except
import RegexEquiv.Proofs.Search.Queue

/-!
# Searches under two guards

A guard decides whether a search goes on and nothing else. So if one guard agrees with another up to
some errors, a search under the first takes the steps of a search under the second until it fails
with one of these errors: `Graph.search_agrees`.
-/

namespace RegexEquiv

variable {σ ℓ ε : Type} [Ord σ] [Std.TransOrd σ] [Std.LawfulEqOrd σ] {p : ε → Prop}
  {guard guard' : Guard σ ℓ ε}

theorem Discovery.visit_agrees
    (hguard : ∀ count v, Except.Agrees p (guard count v) (guard' count v))
    (found : Discovery σ ℓ) (v : Visit σ ℓ) :
    Except.Agrees p (found.visit guard v) (found.visit guard' v) := by
  by_cases hmem : v.node ∈ found.nodes
  · rw [visit_of_mem hmem, visit_of_mem hmem]
    exact .refl p _
  · have hnone := numbers_eq_none_iff.2 hmem
    rw [visit_of_none hnone, visit_of_none hnone]
    exact (hguard found.size v).map _

namespace Graph

variable {g : Graph σ ℓ}

theorem expand_agrees (hguard : ∀ count v, Except.Agrees p (guard count v) (guard' count v))
    (found : Discovery σ ℓ) (v : Visit σ ℓ) :
    Except.Agrees p (g.expand guard found v) (g.expand guard' found v) := by
  rw [expand_eq, expand_eq]
  exact .foldlM (Discovery.visit_agrees hguard) _ found

theorem explore_agrees (hguard : ∀ count v, Except.Agrees p (guard count v) (guard' count v))
    (found : Discovery σ ℓ) (next : Nat) :
    Except.Agrees p (g.explore guard found next) (g.explore guard' found next) := by
  fun_induction explore g guard found next with
  | case1 found next hlt hnone =>
      rw [explore, if_pos hlt, hnone]
      exact .refl p _
  | case2 found next hlt v hv ih =>
      rw [explore, if_pos hlt, hv]
      exact (expand_agrees hguard found v).bind ih
  | case3 found next hlt =>
      rw [explore, if_neg hlt]
      exact .refl p _

/-- Searches under guards that agree up to some errors agree up to these errors. -/
theorem search_agrees (hguard : ∀ count v, Except.Agrees p (guard count v) (guard' count v))
    (starts : List σ) : Except.Agrees p (g.search guard starts) (g.search guard' starts) := by
  unfold search
  exact (Except.Agrees.foldlM (fun found x => Discovery.visit_agrees hguard found ⟨x, []⟩)
    starts .empty).bind fun found => explore_agrees hguard found 0

end Graph

end RegexEquiv
