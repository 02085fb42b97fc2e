import RegexEquiv.Search

/-!
# A search as a queue of visits

`Graph.search` walks over the nodes that it has found. Seen from outside, it keeps a queue of
visits: it takes the first, drops it if its node is known, and otherwise adds it and queues its
successors.
A property of the nodes found and of the queue that both kinds of step keep holds at the end of the
search, whether the queue runs empty or the guard stops it. `Graph.search_outcome` says so for all
searches whose graph is as small as its bound promises.
-/

namespace RegexEquiv

variable {σ ℓ ε : Type} [Ord σ]

namespace Discovery

/-! ## The nodes found -/

theorem mem_nodes {found : Discovery σ ℓ} {x : σ} :
    x ∈ found.nodes ↔ ∃ v ∈ found.visits.toList, v.node = x := List.mem_map

@[simp]
theorem nodes_length (found : Discovery σ ℓ) : found.nodes.length = found.size := by
  simp [nodes, size]

/-- The position of a node among the nodes found is its number. -/
theorem getElem?_nodes {found : Discovery σ ℓ} {x : σ} {i : Nat} :
    found.nodes[i]? = some x ↔ found.numbers[x]? = some i := by
  rw [found.numbered, nodes, List.getElem?_map, Array.getElem?_toList]

/-- A node has no number exactly when it has not been found. -/
theorem numbers_eq_none_iff {found : Discovery σ ℓ} {x : σ} :
    found.numbers[x]? = none ↔ x ∉ found.nodes := by
  rw [Option.eq_none_iff_forall_ne_some, List.mem_iff_getElem?]
  simp only [getElem?_nodes, not_exists, ne_eq]

/-- A found node has its position as its number. -/
theorem number_of_getElem? {found : Discovery σ ℓ} {x : σ} {i : Nat}
    (h : found.nodes[i]? = some x) : found.number x = i := by
  rw [number, getElem?_nodes.1 h, Option.getD_some]

/-- All nodes that have not been found share the first free number. -/
theorem number_of_not_mem {found : Discovery σ ℓ} {x : σ} (h : x ∉ found.nodes) :
    found.number x = found.size := by
  rw [number, numbers_eq_none_iff.2 h, Option.getD_none]

/-- A node is found exactly when its number is not free. -/
theorem number_lt_iff {found : Discovery σ ℓ} {x : σ} :
    found.number x < found.size ↔ x ∈ found.nodes := by
  constructor
  · intro h
    refine Classical.byContradiction fun hmem => ?_
    rw [number_of_not_mem hmem] at h
    exact Nat.lt_irrefl _ h
  · intro h
    obtain ⟨i, hi⟩ := List.mem_iff_getElem?.1 h
    rw [number_of_getElem? hi, ← nodes_length]
    exact (List.getElem?_eq_some_iff.1 hi).1

/-- A found node shares its number with no other node. -/
theorem number_inj {found : Discovery σ ℓ} {x y : σ} (hx : x ∈ found.nodes) :
    found.number x = found.number y ↔ x = y := by
  constructor
  · intro h
    have hy : y ∈ found.nodes := by
      rwa [← number_lt_iff, ← h, number_lt_iff]
    obtain ⟨i, hi⟩ := List.mem_iff_getElem?.1 hx
    obtain ⟨j, hj⟩ := List.mem_iff_getElem?.1 hy
    rw [number_of_getElem? hi, number_of_getElem? hj] at h
    subst h
    exact Option.some.inj (hi.symm.trans hj)
  · intro h
    rw [h]

/-- No node is found twice. -/
theorem nodup_nodes (found : Discovery σ ℓ) : found.nodes.Nodup := by
  refine List.pairwise_iff_getElem.2 fun i j hi hj hij heq => ?_
  have hnumber := getElem?_nodes.1 (List.getElem?_eq_getElem hi)
  rw [heq, getElem?_nodes.1 (List.getElem?_eq_getElem hj)] at hnumber
  exact absurd (Option.some.inj hnumber) (Nat.ne_of_gt hij)

variable [Std.TransOrd σ]

@[simp]
theorem nodes_empty : (empty : Discovery σ ℓ).nodes = [] := rfl

variable [Std.LawfulEqOrd σ]

@[simp]
theorem visits_add (found : Discovery σ ℓ) (v : Visit σ ℓ) (h : found.numbers[v.node]? = none) :
    (found.add v h).visits.toList = found.visits.toList ++ [v] := by
  simp [add]

@[simp]
theorem nodes_add (found : Discovery σ ℓ) (v : Visit σ ℓ) (h : found.numbers[v.node]? = none) :
    (found.add v h).nodes = found.nodes ++ [v.node] := by
  simp [nodes]

@[simp]
theorem size_add (found : Discovery σ ℓ) (v : Visit σ ℓ) (h : found.numbers[v.node]? = none) :
    (found.add v h).size = found.size + 1 := by
  simp [size, add]

/-- A known node is not added again. -/
theorem visit_of_mem {guard : Guard σ ℓ ε} {found : Discovery σ ℓ} {v : Visit σ ℓ}
    (h : v.node ∈ found.nodes) : found.visit guard v = .ok found := by
  unfold visit
  split
  · rfl
  · rename_i hnone
    exact absurd h (numbers_eq_none_iff.1 hnone)

/-- A new node is added if the guard agrees. -/
theorem visit_of_none {guard : Guard σ ℓ ε} {found : Discovery σ ℓ} {v : Visit σ ℓ}
    (h : found.numbers[v.node]? = none) :
    found.visit guard v = (guard found.size v).map fun _ => found.add v h := by
  unfold visit
  split
  · rename_i hsome
    rw [h] at hsome
    cases hsome
  · cases guard found.size v <;> rfl

end Discovery

namespace Graph

variable {g : Graph σ ℓ} {guard : Guard σ ℓ ε} {starts : List σ}
  {P Q : Discovery σ ℓ → List (Visit σ ℓ) → Prop}

/-- `g.Access starts w x` says that the labels `w` lead from one of `starts` to `x`. -/
inductive Access (g : Graph σ ℓ) (starts : List σ) : List ℓ → σ → Prop where
  | start {x : σ} : x ∈ starts → Access g starts [] x
  | step {w : List ℓ} {label : ℓ} {x y : σ} :
      Access g starts w x → (label, y) ∈ g.edges x → Access g starts (w ++ [label]) y

omit [Ord σ] in
/-- Without labels, one is at a start. -/
theorem access_nil_iff {x : σ} : g.Access starts [] x ↔ x ∈ starts := by
  constructor
  · intro h
    generalize hword : ([] : List ℓ) = w at h
    cases h with
    | start hx => exact hx
    | step => simp at hword
  · exact .start

omit [Ord σ] in
/-- The last label leads on from where the others lead. -/
theorem access_concat_iff {w : List ℓ} {label : ℓ} {y : σ} :
    g.Access starts (w ++ [label]) y ↔ ∃ x, g.Access starts w x ∧ (label, y) ∈ g.edges x := by
  constructor
  · intro h
    generalize hword : w ++ [label] = u at h
    cases h with
    | start => simp at hword
    | step hx hedge =>
        obtain ⟨rfl, hlabel⟩ := List.append_inj' hword rfl
        obtain rfl := List.head_eq_of_cons_eq hlabel
        exact ⟨_, hx, hedge⟩
  · intro h
    obtain ⟨x, hx, hedge⟩ := h
    exact hx.step hedge

/-- The bound of a graph is at least the number of nodes to which some labels lead. -/
def Fits (g : Graph σ ℓ) (starts : List σ) : Prop :=
  ∃ nodes : List σ, nodes.length ≤ g.bound ∧ ∀ w x, g.Access starts w x → x ∈ nodes

/-- The visits that a visit queues. -/
def successors (g : Graph σ ℓ) (v : Visit σ ℓ) : List (Visit σ ℓ) :=
  (g.edges v.node).map fun (label, x) => ⟨x, label :: v.trail⟩

/-- The visits that the nodes found from number `next` on have yet to queue. -/
def waiting (g : Graph σ ℓ) (found : Discovery σ ℓ) (next : Nat) : List (Visit σ ℓ) :=
  (found.visits.toList.drop next).flatMap g.successors

/-- Labels lead to every node found and to every node queued, as their visits say. -/
def Accessed (g : Graph σ ℓ) (starts : List σ) (found : Discovery σ ℓ)
    (queue : List (Visit σ ℓ)) : Prop :=
  ∀ v ∈ found.visits.toList ++ queue, g.Access starts v.word v.node

omit [Ord σ] in
/-- Labels that lead to a node lead on to its successors. -/
theorem Access.successor {v u : Visit σ ℓ} (h : g.Access starts v.word v.node)
    (hu : u ∈ g.successors v) : g.Access starts u.word u.node := by
  obtain ⟨⟨label, x⟩, hedge, rfl⟩ := List.mem_map.1 hu
  simpa [Visit.word] using h.step hedge

/-- A search never finds more nodes than the bound of its graph allows. -/
theorem Accessed.size_le (hfits : g.Fits starts) {found : Discovery σ ℓ}
    {queue : List (Visit σ ℓ)} (h : g.Accessed starts found queue) : found.size ≤ g.bound := by
  obtain ⟨nodes, hlen, hnodes⟩ := hfits
  have hsub : found.nodes ⊆ nodes := by
    intro x hx
    obtain ⟨v, hv, rfl⟩ := Discovery.mem_nodes.1 hx
    exact hnodes _ _ (h v (List.mem_append_left _ hv))
  rw [← Discovery.nodes_length]
  exact Nat.le_trans (found.nodup_nodes.length_le_of_subset hsub) hlen

variable [Std.TransOrd σ] [Std.LawfulEqOrd σ]

/-- A property of the nodes found and the queue that both kinds of step keep. -/
structure Kept (g : Graph σ ℓ) (guard : Guard σ ℓ ε)
    (P : Discovery σ ℓ → List (Visit σ ℓ) → Prop) : Prop where
  known : ∀ {found v queue}, P found (v :: queue) → v.node ∈ found.nodes → P found queue
  fresh : ∀ {found v queue} (h : found.numbers[v.node]? = none), P found (v :: queue) →
    guard found.size v = .ok () → P (found.add v h) (queue ++ g.successors v)

/-- The guard stops a search at the first visit of the queue, whose node is new. -/
structure Stopped (guard : Guard σ ℓ ε) (P : Discovery σ ℓ → List (Visit σ ℓ) → Prop)
    (reason : ε) (found : Discovery σ ℓ) (v : Visit σ ℓ) (queue : List (Visit σ ℓ)) : Prop where
  holds : P found (v :: queue)
  new : v.node ∉ found.nodes
  refused : guard found.size v = .error reason

/-- A search ends with an empty queue, or the guard stops it, and `P` holds at that point. -/
inductive Outcome (guard : Guard σ ℓ ε) (P : Discovery σ ℓ → List (Visit σ ℓ) → Prop) :
    Except ε (Discovery σ ℓ) → Prop where
  | done {found : Discovery σ ℓ} : P found [] → Outcome guard P (.ok found)
  | stopped {reason : ε} {found : Discovery σ ℓ} {v : Visit σ ℓ} {queue : List (Visit σ ℓ)} :
      Stopped guard P reason found v queue → Outcome guard P (.error reason)

/-- What two properties keep, both keep together. -/
theorem Kept.and (hP : g.Kept guard P) (hQ : g.Kept guard Q) :
    g.Kept guard fun found queue => P found queue ∧ Q found queue where
  known h hmem := ⟨hP.known h.1 hmem, hQ.known h.2 hmem⟩
  fresh hnone h hguard := ⟨hP.fresh hnone h.1 hguard, hQ.fresh hnone h.2 hguard⟩

/-! ## The queue behind the walk -/

/-- An expansion is the visits that a node queues, one after another. -/
theorem expand_eq (found : Discovery σ ℓ) (v : Visit σ ℓ) :
    g.expand guard found v = (g.successors v).foldlM (Discovery.visit guard) found := by
  rw [expand, successors, List.foldlM_map]

/-- Adding a node puts its successors at the end of the queue. -/
theorem waiting_add {found : Discovery σ ℓ} {v : Visit σ ℓ} {next : Nat}
    (h : found.numbers[v.node]? = none) (hnext : next ≤ found.size) :
    g.waiting (found.add v h) next = g.waiting found next ++ g.successors v := by
  have hlen : next ≤ found.visits.toList.length := hnext
  rw [waiting, Discovery.visits_add, List.drop_append_of_le_length hlen]
  simp [waiting]

omit [Std.TransOrd σ] [Std.LawfulEqOrd σ] in
/-- The successors of the node that is taken up next stand at the head of the queue. -/
theorem waiting_of_getElem? {found : Discovery σ ℓ} {v : Visit σ ℓ} {next : Nat}
    (hv : found.visits[next]? = some v) :
    g.waiting found next = g.successors v ++ g.waiting found (next + 1) := by
  rw [← Array.getElem?_toList] at hv
  obtain ⟨hlen, rfl⟩ := List.getElem?_eq_some_iff.1 hv
  rw [waiting, List.drop_eq_getElem_cons hlen, List.flatMap_cons, waiting]

/-- Visits at the head of the queue are taken in turn until the guard refuses one. -/
theorem foldlM_visit (hkept : g.Kept guard P) {visits : List (Visit σ ℓ)}
    {found : Discovery σ ℓ} {next : Nat} (hnext : next ≤ found.size)
    (h : P found (visits ++ g.waiting found next)) :
    (∃ after, visits.foldlM (Discovery.visit guard) found = .ok after ∧
      P after (g.waiting after next)) ∨
    ∃ reason before v queue, visits.foldlM (Discovery.visit guard) found = .error reason ∧
      Stopped guard P reason before v queue := by
  induction visits generalizing found with
  | nil => exact .inl ⟨found, rfl, h⟩
  | cons v visits ih =>
      rw [List.foldlM_cons]
      by_cases hmem : v.node ∈ found.nodes
      · rw [Discovery.visit_of_mem hmem]
        exact ih hnext (hkept.known h hmem)
      · have hnone := Discovery.numbers_eq_none_iff.2 hmem
        rw [Discovery.visit_of_none hnone]
        cases hguard : guard found.size v with
        | error reason => exact .inr ⟨reason, found, v, _, rfl, h, hmem, hguard⟩
        | ok _ =>
            have hsize : next ≤ (found.add v hnone).size := by
              rw [Discovery.size_add]
              omega
            refine ih hsize ?_
            rw [waiting_add hnone hnext, ← List.append_assoc]
            exact hkept.fresh hnone h hguard

/-- Walking over the nodes found from number `next` on empties the queue behind them. -/
theorem explore_outcome (hkept : g.Kept guard P)
    (hbound : ∀ found queue, P found queue → found.size ≤ g.bound)
    {found : Discovery σ ℓ} {next : Nat} (h : P found (g.waiting found next)) :
    Outcome guard P (g.explore guard found next) := by
  fun_induction explore g guard found next with
  | case1 found next hlt hnone =>
      have hsize : found.visits.toList.length ≤ next := Array.getElem?_eq_none_iff.1 hnone
      rw [waiting, List.drop_eq_nil_of_le hsize] at h
      exact .done h
  | case2 found next hlt v hv ih =>
      have hsize : next < found.size := (Array.getElem?_eq_some_iff.1 hv).1
      rw [waiting_of_getElem? hv] at h
      rw [expand_eq]
      obtain ⟨after, hafter, hP⟩ | ⟨reason, before, u, queue, herror, hstopped⟩ :=
        foldlM_visit hkept hsize h
      · rw [hafter]
        exact ih after hP
      · rw [herror]
        exact .stopped hstopped
  | case3 found next hlt =>
      have hsize : found.visits.toList.length ≤ next :=
        Nat.le_trans (hbound _ _ h) (Nat.not_lt.1 hlt)
      rw [waiting, List.drop_eq_nil_of_le hsize] at h
      exact .done h

/-! ## The end of a search -/

omit [Std.LawfulEqOrd σ] in
/-- Before anything is found, labels lead to all starts, which are queued. -/
theorem accessed_start : g.Accessed starts .empty (starts.map fun x => ⟨x, []⟩) := by
  intro v hv
  obtain ⟨x, hx, rfl⟩ : ∃ x ∈ starts, (⟨x, []⟩ : Visit σ ℓ) = v := by
    simpa [Discovery.empty] using hv
  exact .start hx

/-- Every step keeps access to all nodes found and queued. -/
theorem accessed_kept : g.Kept guard (g.Accessed starts) where
  known h _ v hv := by
    simp only [List.mem_append] at hv
    obtain hv | hv := hv
    · exact h v (by simp [hv])
    · exact h v (by simp [hv])
  fresh hnone h _ v hv := by
    simp only [Discovery.visits_add, List.mem_append, List.mem_singleton] at hv
    obtain (hv | rfl) | hv | hv := hv
    · exact h v (by simp [hv])
    · exact h v (by simp)
    · exact h v (by simp [hv])
    · exact (h _ (by simp)).successor hv

/-- What the steps of a search keep holds at its end. -/
theorem search_outcome (hkept : g.Kept guard P) (hfits : g.Fits starts)
    (hstart : P .empty (starts.map fun x => ⟨x, []⟩)) :
    Outcome guard (fun found queue => g.Accessed starts found queue ∧ P found queue)
      (g.search guard starts) := by
  have hboth : g.Kept guard fun found queue => g.Accessed starts found queue ∧ P found queue :=
    accessed_kept.and hkept
  have hqueue : (starts.map fun x => (⟨x, []⟩ : Visit σ ℓ)) ++ g.waiting .empty 0 =
      starts.map fun x => ⟨x, []⟩ := List.append_nil _
  unfold search
  have hfold := foldlM_visit hboth (Nat.zero_le _) (by rw [hqueue]; exact ⟨accessed_start, hstart⟩)
  rw [List.foldlM_map] at hfold
  obtain ⟨after, hafter, hP⟩ | ⟨reason, before, u, queue, herror, hstopped⟩ := hfold
  · rw [hafter]
    exact explore_outcome hboth (fun _ _ h => h.1.size_le hfits) hP
  · rw [herror]
    exact .stopped hstopped

end Graph

end RegexEquiv
