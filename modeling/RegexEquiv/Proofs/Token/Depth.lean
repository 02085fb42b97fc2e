import Mathlib.Data.List.Infix
import Mathlib.Data.List.MinMax
import Mathlib.Order.Nat
import RegexEquiv.Proofs.Token.Nesting

/-!
# Nesting depth of tokens

Behind each first part of some tokens a number of groups is open, and `Token.deepest` is the largest
of these numbers.
-/

namespace RegexEquiv.Token

variable {tokens : List Token}

/-- The largest number of groups that are open at once among some tokens. -/
def deepest (tokens : List Token) : Nat := (tokens.inits.map openGroups).foldr max 0

/-- Some tokens nest at most as deep as given when no first part of them leaves more groups open. -/
theorem deepest_le_iff {depth : Nat} :
    deepest tokens ≤ depth ↔ ∀ front, front <+: tokens → openGroups front ≤ depth := by
  simp only [← List.mem_inits]
  constructor
  · intro h front hfront
    exact Nat.le_trans (List.le_max_of_le (List.mem_map_of_mem hfront) (Nat.le_refl _)) h
  · intro h
    refine List.max_le_of_forall_le _ _ fun n hn => ?_
    obtain ⟨front, hfront, rfl⟩ := List.mem_map.1 hn
    exact h front hfront

/-- Tokens nest as deep as they climb. -/
theorem Climbs.le_deepest {depth : Nat} (h : Climbs tokens depth) : depth ≤ deepest tokens := by
  obtain ⟨front, back, hsplit, hreached⟩ := h.reached
  have hopen : openGroups front = depth := by
    rw [openGroups, hreached, Nat.add_sub_cancel_left]
  exact hopen ▸ deepest_le_iff.1 (Nat.le_refl _) front ⟨back, hsplit⟩

end RegexEquiv.Token
