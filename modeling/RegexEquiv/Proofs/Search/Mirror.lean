import Mathlib.Data.List.Basic
import RegexEquiv.Proofs.Except
import RegexEquiv.Proofs.Search.Queue

/-!
# Searches of mirrored graphs

A graph mirrors another when a one-to-one translation of the nodes carries the edges of the one to
the edges of the other, in order. A search of the mirrored graph makes the same visits in the same
order, to the translated nodes, and asks its guard at the same moments. So if the guards give the
same answers, both searches find nodes that are translations of each other, or they stop for the
same reason: `Graph.search_mirrors`.
-/

namespace RegexEquiv

variable {σ τ ℓ ε : Type} [Ord σ] [Ord τ] {f : σ → τ}

/-- The visit of the translated node. -/
def Visit.translate (f : σ → τ) (v : Visit σ ℓ) : Visit τ ℓ := ⟨f v.node, v.trail⟩

/-- `found.Mirrors f image` says that the nodes found by one search are those found by another,
translated. -/
def Discovery.Mirrors (f : σ → τ) (found : Discovery σ ℓ) (image : Discovery τ ℓ) : Prop :=
  image.visits = found.visits.map (Visit.translate f)

/-- Two searches end alike: with nodes that are translations of each other, or for one reason. -/
inductive EndAlike (f : σ → τ) : Except ε (Discovery σ ℓ) → Except ε (Discovery τ ℓ) → Prop where
  | found {found : Discovery σ ℓ} {image : Discovery τ ℓ} :
      found.Mirrors f image → EndAlike f (.ok found) (.ok image)
  | stopped (reason : ε) : EndAlike f (.error reason) (.error reason)

/-- `g.Mirrors f guard image guard'` says that a translation of the nodes carries one graph, with a
guard, to another. -/
structure Graph.Mirrors (f : σ → τ) (g : Graph σ ℓ) (guard : Guard σ ℓ ε) (image : Graph τ ℓ)
    (guard' : Guard τ ℓ ε) : Prop where
  injective : Function.Injective f
  edges : ∀ x, image.edges (f x) = (g.edges x).map fun edge => (edge.1, f edge.2)
  bound : image.bound = g.bound
  guard : ∀ count v, guard' count (v.translate f) = guard count v

/-- Searches that end alike so far end alike if they go on alike. -/
theorem EndAlike.bind {x : Except ε (Discovery σ ℓ)} {y : Except ε (Discovery τ ℓ)}
    {rest : Discovery σ ℓ → Except ε (Discovery σ ℓ)}
    {rest' : Discovery τ ℓ → Except ε (Discovery τ ℓ)} (h : EndAlike f x y)
    (hrest : ∀ found image, found.Mirrors f image → EndAlike f (rest found) (rest' image)) :
    EndAlike f (x >>= rest) (y >>= rest') := by
  cases h with
  | found hmirrors => exact hrest _ _ hmirrors
  | stopped reason => exact .stopped reason

namespace Discovery.Mirrors

variable {found : Discovery σ ℓ} {image : Discovery τ ℓ}

theorem nodes_eq (h : found.Mirrors f image) : image.nodes = found.nodes.map f := by
  simp [nodes, show image.visits = _ from h, Visit.translate, Function.comp_def]

theorem size_eq (h : found.Mirrors f image) : image.size = found.size := by
  simp [size, show image.visits = _ from h]

theorem mem_nodes_iff (h : found.Mirrors f image) (hf : Function.Injective f) {x : σ} :
    f x ∈ image.nodes ↔ x ∈ found.nodes := by
  rw [h.nodes_eq, List.mem_map_of_injective hf]

theorem getElem?_visits (h : found.Mirrors f image) (i : Nat) :
    image.visits[i]? = found.visits[i]?.map (Visit.translate f) := by
  rw [show image.visits = _ from h, Array.getElem?_map]

end Discovery.Mirrors

namespace Graph

variable [Std.TransOrd σ] [Std.LawfulEqOrd σ] [Std.TransOrd τ] [Std.LawfulEqOrd τ]
  {g : Graph σ ℓ} {image : Graph τ ℓ} {guard : Guard σ ℓ ε} {guard' : Guard τ ℓ ε}
  {found : Discovery σ ℓ} {found' : Discovery τ ℓ}

omit [Ord σ] [Ord τ] [Std.TransOrd σ] [Std.LawfulEqOrd σ] [Std.TransOrd τ] [Std.LawfulEqOrd τ] in
theorem Mirrors.successors (h : g.Mirrors f guard image guard') (v : Visit σ ℓ) :
    image.successors (v.translate f) = (g.successors v).map (Visit.translate f) := by
  simp [Graph.successors, Visit.translate, h.edges, Function.comp_def]

/-- A visit is made in both searches or in neither, and the guards agree on it. -/
theorem Mirrors.visit (h : g.Mirrors f guard image guard') (hfound : found.Mirrors f found')
    (v : Visit σ ℓ) :
    EndAlike f (found.visit guard v) (found'.visit guard' (v.translate f)) := by
  have hmem : (v.translate f).node ∈ found'.nodes ↔ v.node ∈ found.nodes :=
    hfound.mem_nodes_iff h.injective
  by_cases hknown : v.node ∈ found.nodes
  · rw [Discovery.visit_of_mem hknown, Discovery.visit_of_mem (hmem.2 hknown)]
    exact .found hfound
  · have hnone := Discovery.numbers_eq_none_iff.2 hknown
    have hnone' := Discovery.numbers_eq_none_iff.2 (mt hmem.1 hknown)
    rw [Discovery.visit_of_none hnone, Discovery.visit_of_none hnone', hfound.size_eq, h.guard]
    cases guard found.size v with
    | error reason => exact .stopped reason
    | ok _ =>
        refine .found ?_
        show found'.visits.push (v.translate f) = (found.visits.push v).map _
        rw [Array.map_push, show found'.visits = _ from hfound]

theorem Mirrors.foldlM_visit (h : g.Mirrors f guard image guard') (visits : List (Visit σ ℓ))
    (hfound : found.Mirrors f found') :
    EndAlike f (visits.foldlM (Discovery.visit guard) found)
      ((visits.map (Visit.translate f)).foldlM (Discovery.visit guard') found') := by
  induction visits generalizing found found' with
  | nil => exact .found hfound
  | cons v visits ih =>
      rw [List.map_cons, List.foldlM_cons, List.foldlM_cons]
      exact (h.visit hfound v).bind fun _ _ => ih

theorem Mirrors.explore (h : g.Mirrors f guard image guard') (hfound : found.Mirrors f found')
    (next : Nat) :
    EndAlike f (g.explore guard found next) (image.explore guard' found' next) := by
  fun_induction Graph.explore g guard found next generalizing found' with
  | case1 found next hlt hnone =>
      have hvisits := hfound.getElem?_visits next
      rw [hnone, Option.map_none] at hvisits
      rw [Graph.explore, if_pos (h.bound ▸ hlt), hvisits]
      exact .found hfound
  | case2 found next hlt v hv ih =>
      have hvisits := hfound.getElem?_visits next
      rw [hv, Option.map_some] at hvisits
      rw [Graph.explore, if_pos (h.bound ▸ hlt), hvisits]
      have hexpand := h.foldlM_visit (g.successors v) hfound
      rw [← h.successors, ← expand_eq, ← expand_eq] at hexpand
      exact hexpand.bind fun after _ => ih after
  | case3 found next hlt =>
      rw [Graph.explore, if_neg (h.bound ▸ hlt)]
      exact .found hfound

/-- Searches of graphs that mirror each other end alike. -/
theorem search_mirrors (h : g.Mirrors f guard image guard') (starts : List σ) :
    EndAlike f (g.search guard starts) (image.search guard' (starts.map f)) := by
  have hempty : (Discovery.empty : Discovery σ ℓ).Mirrors f Discovery.empty :=
    Array.map_empty.symm
  have hstarts := h.foldlM_visit (starts.map fun x => ⟨x, []⟩) hempty
  rw [List.map_map, List.foldlM_map, List.foldlM_map] at hstarts
  unfold search
  rw [List.foldlM_map]
  exact hstarts.bind fun _ _ hfound => h.explore hfound 0

end Graph

end RegexEquiv
