import Mathlib.Order.Basic
import RegexEquiv.Compare
import RegexEquiv.Proofs.Search.Guard

/-!
# Budgets

A budget can only stop a construction, never change what it gives. Under smaller budgets each
construction takes the same steps as under larger ones until it reports that its own budget is used
up (`Dfa.ofNfa_agrees`, `Dfa.findWitness_agrees`), and so does a comparison of two patterns, which
is a chain of such constructions. So what a comparison gives within some budgets is what it gives
without any, and within all larger ones: `comparison_within_budgets`.
-/

namespace RegexEquiv

/-- `limits ≤ larger` says that every budget of `larger` is one of `limits` too, and there no
larger. A budget that is not set counts as infinite. -/
instance : LE Limits where
  le limits larger := ∀ (stage : Stage) (bound : Nat), stage.limit? larger = some bound →
    ∃ limit, stage.limit? limits = some limit ∧ limit ≤ bound

theorem Limits.le_unlimited (limits : Limits) : limits ≤ {} := by
  intro stage bound hbound
  cases stage with
  | determinization | productSearch => cases hbound

/-- The error says that the budget of a construction is used up. -/
def Stage.Exhausted (stage : Stage) (limits : Limits) (e : Error) : Prop :=
  ∃ limit, stage.limit? limits = some limit ∧ e = .overBudget stage limit

/-- The error says that one of the budgets is used up. -/
def Limits.Exhausted (limits : Limits) (e : Error) : Prop :=
  ∃ stage : Stage, stage.Exhausted limits e

variable {limits larger : Limits}

/-- There is one error only by which a construction says that its budget is used up. -/
theorem Stage.Exhausted.unique {stage : Stage} {e e' : Error} (h : stage.Exhausted limits e)
    (h' : stage.Exhausted limits e') : e = e' := by
  obtain ⟨limit, hlimit, rfl⟩ := h
  obtain ⟨limit', hlimit', rfl⟩ := h'
  rw [hlimit] at hlimit'
  obtain rfl := Option.some.inj hlimit'
  rfl

theorem Stage.allow_of_limit {stage : Stage} {limit : Nat} (h : stage.limit? limits = some limit)
    (count : Nat) : stage.allow limits count =
      if count < limit then .ok () else .error (.overBudget stage limit) := by
  rw [allow, h]

/-- A budget has room for one more state as long as there are fewer than it allows. -/
theorem Stage.allow_eq_ok_iff {stage : Stage} {limit count : Nat}
    (h : stage.limit? limits = some limit) :
    stage.allow limits count = .ok () ↔ count < limit := by
  rw [allow_of_limit h]
  by_cases hroom : count < limit
  · rw [if_pos hroom]
    exact iff_of_true rfl hroom
  · rw [if_neg hroom]
    exact iff_of_false nofun hroom

/-- The only error of a budget says that it is used up. -/
theorem Stage.allow_eq_error_iff {stage : Stage} {limit count : Nat} {e : Error}
    (h : stage.limit? limits = some limit) :
    stage.allow limits count = .error e ↔ limit ≤ count ∧ e = .overBudget stage limit := by
  rw [allow_of_limit h]
  by_cases hroom : count < limit
  · rw [if_pos hroom]
    exact iff_of_false nofun fun hfull => absurd hroom (Nat.not_lt.2 hfull.1)
  · rw [if_neg hroom, Except.error.injEq, and_iff_right (Nat.not_lt.1 hroom), eq_comm]

theorem Stage.allow_agrees (h : limits ≤ larger) (stage : Stage) (count : Nat) :
    Except.Agrees (stage.Exhausted limits) (stage.allow limits count)
      (stage.allow larger count) := by
  cases hlarger : stage.limit? larger with
  | none =>
      rw [allow_none hlarger]
      cases hlimit : stage.limit? limits with
      | none => exact .inl (allow_none hlimit count)
      | some limit =>
          rw [allow_of_limit hlimit]
          split
          · exact .refl _ _
          · exact .inr ⟨_, ⟨limit, hlimit, rfl⟩, rfl⟩
  | some bound =>
      obtain ⟨limit, hlimit, hle⟩ := h stage bound hlarger
      rw [allow_of_limit hlarger, allow_of_limit hlimit]
      split
      · rw [if_pos (by omega)]
        exact .refl _ _
      · exact .inr ⟨_, ⟨limit, hlimit, rfl⟩, rfl⟩

/-! ## Constructions of automata -/

namespace Dfa

theorem ofNfa_agrees (h : limits ≤ larger) (n : Nfa) (alphabet : Alphabet) :
    Except.Agrees (Stage.determinization.Exhausted limits) (ofNfa n alphabet limits)
      (ofNfa n alphabet larger) := by
  have hallow := Stage.allow_agrees h .determinization
  have hsubsets := (n.subsetGraph alphabet).search_agrees (fun count _ => hallow count) [n.initial]
  refine hsubsets.bind fun found => ?_
  -- The budget is asked once more, if a sink is needed.
  show Except.Agrees _ (if _ then _ else _) (if _ then _ else _)
  split
  · exact (hallow found.size).bind fun _ => .refl _ _
  · exact .refl _ _

theorem findWitness_agrees (h : limits ≤ larger) (a b : Dfa) (condition : Bool → Bool → Bool) :
    Except.Agrees (Stage.productSearch.Exhausted limits) (a.findWitness b condition limits)
      (a.findWitness b condition larger) := by
  have hguard : ∀ count v, Except.Agrees
      (fun halt => ∃ e, Stage.productSearch.Exhausted limits e ∧ halt = .failed e)
      (a.witnessGuard b condition limits count v) (a.witnessGuard b condition larger count v) := by
    intro count v
    have hallow := Stage.allow_agrees h .productSearch count
    exact (hallow.mapError fun e he => ⟨e, he, rfl⟩).bind fun _ => .refl _ _
  unfold findWitness
  obtain heq | ⟨_, ⟨e, he, rfl⟩, hhalt⟩ := (a.pairGraph b).search_agrees hguard [a.startPair b]
  · rw [heq]
    exact .refl _ _
  · rw [hhalt]
    exact .inr ⟨e, he, rfl⟩

theorem verdict_agrees (h : limits ≤ larger) (a b : Dfa) :
    Except.Agrees (Stage.productSearch.Exhausted limits) (a.verdict b limits)
      (a.verdict b larger) :=
  (findWitness_agrees h a b _).bind fun _ => .refl _ _

theorem inclusionWitness_agrees (h : limits ≤ larger) (a b : Dfa) :
    Except.Agrees (Stage.productSearch.Exhausted limits) (a.inclusionWitness b limits)
      (a.inclusionWitness b larger) :=
  findWitness_agrees h a b _

end Dfa

/-! ## Comparisons of patterns -/

theorem compile_agrees (h : limits ≤ larger) (pattern : List Char) (alphabet : Alphabet) :
    Except.Agrees (Stage.determinization.Exhausted limits) (compile pattern alphabet limits)
      (compile pattern alphabet larger) := by
  have hcompiled : Except.Agrees (Stage.determinization.Exhausted limits)
      (Compiled.ofPattern pattern alphabet limits) (Compiled.ofPattern pattern alphabet larger) :=
    (Except.Agrees.refl _ _).bind fun r =>
      (Dfa.ofNfa_agrees h (Nfa.ofRegex r) alphabet).bind fun _ => .refl _ _
  exact hcompiled.map _

/-- A chain that compiles two patterns and then compares the automata agrees with the chain under
larger budgets. -/
theorem compared_agrees {α : Type} (h : limits ≤ larger) (a b : List Char) (alphabet : Alphabet)
    (judge : Limits → Dfa → Dfa → Except Error α)
    (hjudge : ∀ left right, Except.Agrees (Stage.productSearch.Exhausted limits)
      (judge limits left right) (judge larger left right)) :
    Except.Agrees limits.Exhausted
      (do judge limits (← compile a alphabet limits) (← compile b alphabet limits))
      (do judge larger (← compile a alphabet larger) (← compile b alphabet larger)) := by
  have hcompile : ∀ pattern, Except.Agrees limits.Exhausted (compile pattern alphabet limits)
      (compile pattern alphabet larger) := fun pattern =>
    (compile_agrees h pattern alphabet).mono fun _ he => ⟨_, he⟩
  exact (hcompile a).bind fun left => (hcompile b).bind fun right =>
    (hjudge left right).mono fun _ he => ⟨_, he⟩

theorem equivalence_agrees (h : limits ≤ larger) (a b : List Char) (alphabet : Alphabet) :
    Except.Agrees limits.Exhausted (equivalence a b alphabet limits)
      (equivalence a b alphabet larger) :=
  compared_agrees h a b alphabet (fun limits left right => left.verdict right limits)
    (Dfa.verdict_agrees h)

theorem inclusion_agrees (h : limits ≤ larger) (a b : List Char) (alphabet : Alphabet) :
    Except.Agrees limits.Exhausted (inclusion a b alphabet limits)
      (inclusion a b alphabet larger) :=
  compared_agrees h a b alphabet (fun limits left right => left.inclusionWitness right limits)
    (Dfa.inclusionWitness_agrees h)

/-- Within some budgets a comparison gives what it gives without any, or fails with the error that
reports one of the budgets and the construction for which it is set. What it gives without failing,
it gives within all larger budgets. -/
theorem comparison_within_budgets (a b : List Char) (alphabet : Alphabet) (limits : Limits) :
    (equivalence a b alphabet limits = equivalence a b alphabet {} ∨
      ∃ (stage : Stage) (limit : Nat), stage.limit? limits = some limit ∧
        equivalence a b alphabet limits = .error (.overBudget stage limit)) ∧
    (inclusion a b alphabet limits = inclusion a b alphabet {} ∨
      ∃ (stage : Stage) (limit : Nat), stage.limit? limits = some limit ∧
        inclusion a b alphabet limits = .error (.overBudget stage limit)) ∧
    ∀ larger, limits ≤ larger →
      (∀ v, equivalence a b alphabet limits = .ok v → equivalence a b alphabet larger = .ok v) ∧
      ∀ answer, inclusion a b alphabet limits = .ok answer →
        inclusion a b alphabet larger = .ok answer := by
  have hunlimited := limits.le_unlimited
  refine ⟨?_, ?_, fun larger h => ⟨fun v hv => ?_, fun answer hanswer => ?_⟩⟩
  · refine (equivalence_agrees hunlimited a b alphabet).imp_right fun herror => ?_
    obtain ⟨_, ⟨stage, limit, hlimit, rfl⟩, he⟩ := herror
    exact ⟨stage, limit, hlimit, he⟩
  · refine (inclusion_agrees hunlimited a b alphabet).imp_right fun herror => ?_
    obtain ⟨_, ⟨stage, limit, hlimit, rfl⟩, he⟩ := herror
    exact ⟨stage, limit, hlimit, he⟩
  · exact (equivalence_agrees h a b alphabet).eq_ok hv
  · exact (inclusion_agrees h a b alphabet).eq_ok hanswer

/-- The comparison of `ab` and `ba` needs five pairs of states: with four it fails, and what it
gives with five it gives with seven. -/
theorem comparison_within_budgets_five :
    equivalence "ab".toList "ba".toList (.ofList ['a', 'b']) ⟨some 4, some 4⟩ =
        .error (.overBudget .productSearch 4) ∧
      equivalence "ab".toList "ba".toList (.ofList ['a', 'b']) ⟨some 4, some 5⟩ =
        .ok (.different ['a', 'b'] .left) ∧
      equivalence "ab".toList "ba".toList (.ofList ['a', 'b']) ⟨none, some 7⟩ =
        .ok (.different ['a', 'b'] .left) := by
  have hfive : equivalence "ab".toList "ba".toList (.ofList ['a', 'b']) ⟨some 4, some 5⟩ =
      .ok (.different ['a', 'b'] .left) := by decide +kernel
  have hle : (⟨some 4, some 5⟩ : Limits) ≤ ⟨none, some 7⟩ := by
    intro stage bound hbound
    cases stage with
    | determinization => cases hbound
    | productSearch =>
        obtain rfl := Option.some.inj hbound
        exact ⟨5, rfl, by decide⟩
  exact ⟨by decide +kernel, hfive, ((comparison_within_budgets _ _ _ _).2.2 _ hle).1 _ hfive⟩

end RegexEquiv
