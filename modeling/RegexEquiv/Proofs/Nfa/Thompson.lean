import RegexEquiv.Proofs.Nfa.Fragment

/-!
# The language of a fragment

Both halves of the correctness proof are inductions over the expression. `Nfa.leads_fragment`: every
word of the expression is read from the first state of its fragment to the last.
`Nfa.spells_fragment`: every path from the first state that leaves the fragment reads a word of the
expression up to the last state. Together they give the main theorem, `Nfa.accepts_ofRegex_iff`: the
automaton of an expression accepts exactly its language.
-/

namespace RegexEquiv

/-- At least one round is any number of rounds. -/
theorem Regex.Matches.star_of_plus {inner : Regex} {w : Word} (h : (Regex.plus inner).Matches w) :
    (Regex.star inner).Matches w := by
  obtain ⟨u, v, rfl, hu, hv⟩ := Regex.matches_plus_iff.1 h
  exact .starAppend hu hv

namespace Nfa

variable {n : Nfa}

/-! ## Reading a word of the expression -/

/-- Any number of rounds through a fragment whose last state leads back to its first, and out. -/
theorem leads_star {inner : Regex} {first finish last : Nat} {w : Word}
    (hround : ∀ {u}, inner.Matches u → n.Leads first u finish)
    (hmoves : n.movesFrom finish = { silent := [first, last] })
    (h : Regex.Matches (.star inner) w) : n.Leads finish w last := by
  have hback : first ∈ (n.movesFrom finish).silent := by simp [hmoves]
  have hout : last ∈ (n.movesFrom finish).silent := by simp [hmoves]
  generalize hr : Regex.star inner = r at h
  induction h with
  | starNil => exact .silent hout (.refl n last)
  | starAppend hu _ _ ih =>
      obtain rfl := Regex.star.inj hr
      exact .silent hback ((hround hu).trans (ih hr))
  | _ => nomatch hr

/-- Every word of an expression leads through its fragment. -/
theorem leads_fragment {r : Regex} {first : Nat} {exits : List Nat} {w : Word}
    (h : n.Holds first (r.fragment first exits)) (hw : r.Matches w) :
    n.Leads first w (r.lastState first) := by
  induction r generalizing first exits w with
  | empty => nomatch hw
  | epsilon =>
      obtain rfl := Regex.matches_epsilon_iff.1 hw
      have hmoves := (holds_cons_iff.1 h).1
      exact .silent (by simp [hmoves]) (.refl n (first + 1))
  | symbol c =>
      obtain rfl := Regex.matches_symbol_iff.1 hw
      have hmoves := (holds_cons_iff.1 h).1
      exact .read (by simp [hmoves]) (.refl n (first + 1))
  | cat left right ihl ihr =>
      obtain ⟨u, v, rfl, hu, hv⟩ := Regex.matches_cat_iff.1 hw
      obtain ⟨hleft, hright⟩ := holds_cat h
      have hmoves := movesFrom_lastState hleft
      rw [Regex.lastState_cat]
      exact (ihl hleft hu).trans (.silent (by simp [hmoves]) (ihr hright hv))
  | alt left right ihl ihr =>
      obtain ⟨hfirst, hleft, hright, -⟩ := holds_alt h
      rw [← w.append_nil]
      obtain hw | hw := Regex.matches_alt_iff.1 hw
      · have hmoves := movesFrom_lastState hleft
        refine .silent (by simp [hfirst]) ((ihl hleft hw).trans ?_)
        exact .silent (by simp [hmoves]) (.refl n _)
      · have hmoves := movesFrom_lastState hright
        refine .silent (by simp [hfirst]) ((ihr hright hw).trans ?_)
        exact .silent (by simp [hmoves]) (.refl n _)
  | star inner ih =>
      obtain ⟨hfirst, hinner, -⟩ := holds_star h
      have hmoves := movesFrom_lastState hinner
      obtain rfl | ⟨u, v, rfl, hu, hv⟩ := Regex.matches_star_iff.1 hw
      · exact .silent (by simp [hfirst]) (.refl n _)
      · refine .silent (by simp [hfirst]) ((ih hinner hu).trans ?_)
        exact leads_star (ih hinner) hmoves hv
  | plus inner ih =>
      obtain ⟨hfirst, hinner, -⟩ := holds_plus h
      have hmoves := movesFrom_lastState hinner
      obtain ⟨u, v, rfl, hu, hv⟩ := Regex.matches_plus_iff.1 hw
      refine .silent (by simp [hfirst]) ((ih hinner hu).trans ?_)
      exact leads_star (ih hinner) hmoves hv

/-! ## Leaving a fragment -/

/-- Every path that leaves the states from `first` to before `last` reads a word of the expression
on its way to `last`, and goes on from there with fewer moves. -/
def Spells (n : Nfa) (r : Regex) (first last : Nat) : Prop :=
  ∀ ⦃k t : Nat⦄ ⦃w : Word⦄, n.Path k first w t → t < first ∨ last ≤ t →
    ∃ u v j, w = u ++ v ∧ r.Matches u ∧ j < k ∧ n.Path j last v t

/-- A path out of a state with silent moves alone starts with one of them. -/
theorem Path.of_silent {k s t : Nat} {w : Word} {targets : List Nat} (h : n.Path k s w t)
    (hmoves : n.movesFrom s = { silent := targets }) (hne : t ≠ s) :
    ∃ m ∈ targets, ∃ j < k, n.Path j m w t := by
  cases h with
  | stay => exact absurd rfl hne
  | @silent k _ m _ _ hmove hrest =>
      rw [hmoves] at hmove
      exact ⟨m, hmove, k, Nat.lt_succ_self k, hrest⟩
  | read hmove =>
      rw [hmoves] at hmove
      cases hmove

section Spells

variable {r left right inner : Regex} {first finish middle next next' last : Nat}

/-- What a fragment spells up to its last state, it spells up to the only exit of that state. -/
theorem Spells.exit (h : n.Spells r first finish)
    (hmoves : n.movesFrom finish = { silent := [next] }) (hfirst : first ≤ finish)
    (hnext : finish < next) : n.Spells r first next := by
  intro k t w hpath ht
  obtain ⟨u, v, j, rfl, hu, hj, hrest⟩ := h hpath (by omega)
  obtain ⟨m, hm, i, hi, hrest⟩ := hrest.of_silent hmoves (by omega)
  obtain rfl := List.mem_singleton.1 hm
  exact ⟨u, v, i, rfl, hu, by omega, hrest⟩

/-- One expression and then another spell their concatenation. -/
theorem Spells.cat (hleft : n.Spells left first middle) (hright : n.Spells right middle last)
    (hfirst : first ≤ middle) (hlast : middle ≤ last) :
    n.Spells (.cat left right) first last := by
  intro k t w hpath ht
  obtain ⟨u, v, j, rfl, hu, hj, hrest⟩ := hleft hpath (by omega)
  obtain ⟨u', v', j', rfl, hu', hj', hrest⟩ := hright hrest (by omega)
  exact ⟨u ++ u', v', j', by simp, .cat hu hu', by omega, hrest⟩

/-- A silent move to one of two expressions spells their alternation. -/
theorem Spells.alt (hmoves : n.movesFrom first = { silent := [next, next'] })
    (hleft : n.Spells left next last) (hright : n.Spells right next' last) (hnext : first < next)
    (hnext' : first < next') (hlast : first < last) : n.Spells (.alt left right) first last := by
  intro k t w hpath ht
  obtain ⟨m, hm, j, hj, hrest⟩ := hpath.of_silent hmoves (by omega)
  simp only [List.mem_cons, List.not_mem_nil, or_false] at hm
  obtain rfl | rfl := hm
  · obtain ⟨u, v, i, rfl, hu, hi, hrest⟩ := hleft hrest (by omega)
    exact ⟨u, v, i, rfl, .altLeft hu, by omega, hrest⟩
  · obtain ⟨u, v, i, rfl, hu, hi, hrest⟩ := hright hrest (by omega)
    exact ⟨u, v, i, rfl, .altRight hu, by omega, hrest⟩

/-- The rounds of a loop spell at least one round of its expression. -/
theorem Spells.rounds (h : n.Spells inner first finish)
    (hmoves : n.movesFrom finish = { silent := [first, last] }) (hfirst : first ≤ finish)
    (hlast : finish < last) : n.Spells (.plus inner) first last := by
  intro k t w hpath ht
  -- Fewer moves are left after every round.
  induction k using Nat.strongRecOn generalizing w with
  | ind k ih =>
      obtain ⟨u, v, j, rfl, hu, hj, hrest⟩ := h hpath (by omega)
      obtain ⟨m, hm, i, hi, hrest⟩ := hrest.of_silent hmoves (by omega)
      simp only [List.mem_cons, List.not_mem_nil, or_false] at hm
      obtain rfl | rfl := hm
      · obtain ⟨u', v', j', rfl, hu', hj', hrest⟩ := ih i (by omega) hrest
        exact ⟨u ++ u', v', j', by simp, .plus hu hu'.star_of_plus, by omega, hrest⟩
      · exact ⟨u, v, i, rfl, u.append_nil ▸ .plus hu .starNil, by omega, hrest⟩

/-- A silent move to the rounds of a loop spells the loop. -/
theorem Spells.plus (hmoves : n.movesFrom first = { silent := [next] })
    (h : n.Spells (.plus inner) next last) (hnext : first < next) (hlast : first < last) :
    n.Spells (.plus inner) first last := by
  intro k t w hpath ht
  obtain ⟨m, hm, j, hj, hrest⟩ := hpath.of_silent hmoves (by omega)
  obtain rfl := List.mem_singleton.1 hm
  obtain ⟨u, v, i, rfl, hu, hi, hrest⟩ := h hrest (by omega)
  exact ⟨u, v, i, rfl, hu, by omega, hrest⟩

/-- A silent move to the rounds of a loop, or past them, spells the loop with no round as well. -/
theorem Spells.star (hmoves : n.movesFrom first = { silent := [next, last] })
    (h : n.Spells (.plus inner) next last) (hnext : first < next) (hlast : first < last) :
    n.Spells (.star inner) first last := by
  intro k t w hpath ht
  obtain ⟨m, hm, j, hj, hrest⟩ := hpath.of_silent hmoves (by omega)
  simp only [List.mem_cons, List.not_mem_nil, or_false] at hm
  obtain rfl | rfl := hm
  · obtain ⟨u, v, i, rfl, hu, hi, hrest⟩ := h hrest (by omega)
    exact ⟨u, v, i, rfl, hu.star_of_plus, by omega, hrest⟩
  · exact ⟨[], w, j, rfl, .starNil, hj, hrest⟩

end Spells

/-- Paths that leave a fragment spell its expression. -/
theorem spells_fragment {r : Regex} {first : Nat} {exits : List Nat}
    (h : n.Holds first (r.fragment first exits)) : n.Spells r first (r.lastState first) := by
  induction r generalizing first exits with
  | empty =>
      intro k t w hpath ht
      have hmoves : n.movesFrom first = { silent := [] } := (holds_cons_iff.1 h).1
      have hlast := Regex.empty.first_lt_lastState first
      obtain ⟨m, hm, -⟩ := hpath.of_silent hmoves (by omega)
      cases hm
  | epsilon =>
      intro k t w hpath ht
      have hmoves := (holds_cons_iff.1 h).1
      have hlast := Regex.epsilon.first_lt_lastState first
      obtain ⟨m, hm, j, hj, hrest⟩ := hpath.of_silent hmoves (by omega)
      obtain rfl := List.mem_singleton.1 hm
      exact ⟨[], w, j, rfl, .epsilon, hj, hrest⟩
  | symbol c =>
      intro k t w hpath ht
      have hmoves := (holds_cons_iff.1 h).1
      have hlast := (Regex.symbol c).first_lt_lastState first
      cases hpath with
      | stay => omega
      | silent hmove =>
          rw [hmoves] at hmove
          cases hmove
      | @read k _ m _ d w hmove hrest =>
          rw [hmoves] at hmove
          obtain ⟨rfl, rfl⟩ := Prod.mk.inj (List.mem_singleton.1 hmove)
          exact ⟨[d], w, k, rfl, .symbol d, Nat.lt_succ_self k, hrest⟩
  | cat left right ihl ihr =>
      obtain ⟨hleft, hright⟩ := holds_cat h
      have hlastl := left.lastState_add_one first
      have hfirstl := left.first_lt_lastState first
      have hfirstr := right.first_lt_lastState (first + left.stateCount)
      have hexit := (ihl hleft).exit (movesFrom_lastState hleft) (by omega) (by omega)
      rw [Regex.lastState_cat]
      exact hexit.cat (ihr hright) (by omega) (by omega)
  | alt left right ihl ihr =>
      obtain ⟨hfirst, hleft, hright, -⟩ := holds_alt h
      have hlastl := left.lastState_add_one (first + 1)
      have hlastr := right.lastState_add_one (first + 1 + left.stateCount)
      have hfirstl := left.first_lt_lastState (first + 1)
      have hfirstr := right.first_lt_lastState (first + 1 + left.stateCount)
      have hlast := Regex.lastState_alt left right first
      have hexitl := (ihl hleft).exit (movesFrom_lastState hleft) (by omega) (by omega)
      have hexitr := (ihr hright).exit (movesFrom_lastState hright) (by omega) (by omega)
      exact .alt hfirst hexitl hexitr (by omega) (by omega) (by omega)
  | star inner ih =>
      obtain ⟨hfirst, hinner, -⟩ := holds_star h
      have hlasti := inner.lastState_add_one (first + 1)
      have hfirsti := inner.first_lt_lastState (first + 1)
      have hlast := inner.lastState_star first
      have hrounds := (ih hinner).rounds (movesFrom_lastState hinner) (by omega) (by omega)
      exact .star hfirst hrounds (by omega) (by omega)
  | plus inner ih =>
      obtain ⟨hfirst, hinner, -⟩ := holds_plus h
      have hlasti := inner.lastState_add_one (first + 1)
      have hfirsti := inner.first_lt_lastState (first + 1)
      have hlast := inner.lastState_plus first
      have hrounds := (ih hinner).rounds (movesFrom_lastState hinner) (by omega) (by omega)
      exact .plus hfirst hrounds (by omega) (by omega)

/-! ## The automaton of an expression -/

/-- Paths from the start of the automaton of an expression to its end read the words of the
expression. -/
theorem leads_ofRegex_iff {r : Regex} {w : Word} :
    (ofRegex r).Leads (ofRegex r).start w (ofRegex r).accept ↔ r.Matches w := by
  have hholds := holds_ofRegex r
  rw [accept_ofRegex]
  constructor
  · intro h
    obtain ⟨k, hpath⟩ := h
    obtain ⟨u, v, j, rfl, hu, -, hrest⟩ := spells_fragment hholds hpath (.inr (Nat.le_refl _))
    -- The last state has no exits, so nothing is read behind it.
    have hmoves := movesFrom_lastState hholds
    cases hrest with
    | stay => rwa [List.append_nil]
    | silent hmove =>
        rw [hmoves] at hmove
        cases hmove
    | read hmove =>
        rw [hmoves] at hmove
        cases hmove
  · exact leads_fragment hholds

/-- The automaton of an expression accepts exactly its language. -/
theorem accepts_ofRegex_iff (r : Regex) (w : Word) : (ofRegex r).accepts w = true ↔ r.Matches w :=
  (accepts_iff_leads (closed_ofRegex r)).trans leads_ofRegex_iff

end Nfa

end RegexEquiv
