import RegexEquiv.Proofs.Compare

/-!
# Comparing over a larger alphabet

Without a wildcard, a pattern means the same over every alphabet that has its symbols: the reader
takes the same steps (`Reader.Step.widen`) and ends with the same expression (`Regex.parse_widen`).
The automata over the larger alphabet do differ: they have more columns, and sinks and pairs of
states that the others lack. But the languages do not differ, and they alone decide the outcome of a
comparison, the witness included: `comparison_widen`.
-/

namespace RegexEquiv

open Grammar

/-- No token of a pattern is a wildcard. -/
def WildcardFree (pattern : List Char) : Prop :=
  ∀ tokens, Token.scan pattern = .ok tokens → ∀ t ∈ tokens, t.kind ≠ .wildcard

instance (pattern : List Char) : Decidable (WildcardFree pattern) :=
  match hscan : Token.scan pattern with
  | .ok tokens =>
      decidable_of_iff (∀ t ∈ tokens, t.kind ≠ .wildcard)
        ⟨fun h _ hother => Except.ok.inj (hscan.symm.trans hother) ▸ h, fun h => h tokens hscan⟩
  | .error _ => .isTrue fun _ hother => by cases hscan.symm.trans hother

variable {alphabet larger : Alphabet} (hsub : ∀ c ∈ alphabet, c ∈ larger)

/-! ## Reading -/

/-- Only the wildcard is read differently over another alphabet. -/
theorem TokenKind.tree_of_factor? {kind : TokenKind} {f : Factor} (hf : kind.factor? = some f)
    (hkind : kind ≠ .wildcard) : f.tree .compact alphabet = f.tree .compact larger := by
  cases kind with
  | symbol | oneOf =>
      obtain rfl := Option.some.inj hf
      rfl
  | wildcard => exact absurd rfl hkind
  | _ => cases hf

namespace Reader

include hsub

/-- A token other than the wildcard is taken in alike over the larger alphabet. -/
theorem Step.widen {reader next : Reader} {token : Token} (h : Step alphabet reader token next)
    (hkind : token.kind ≠ .wildcard) : Step larger reader token next := by
  cases h with
  | operand f hf hover =>
      have htree : f.tree .compact alphabet = f.tree .compact larger :=
        TokenKind.tree_of_factor? hf hkind
      rw [htree]
      exact .operand f hf fun c hc => hsub c (hover c hc)
  | quantifier q r rest hkind hfactors => exact .quantifier q r rest hkind hfactors
  | bar hkind => exact .bar hkind
  | opening hkind hroom => exact .opening hkind hroom
  | closing position group rest hkind henclosing =>
      exact .closing position group rest hkind henclosing

/-- Some tokens without a wildcard are taken in alike over the larger alphabet. -/
theorem run_widen {reader next : Reader} {tokens : List Token}
    (hplain : ∀ t ∈ tokens, t.kind ≠ .wildcard) (h : reader.run alphabet tokens = .ok next) :
    reader.run larger tokens = .ok next := by
  induction tokens generalizing reader with
  | nil => exact h
  | cons token more ih =>
      obtain ⟨htoken, hmore⟩ := List.forall_mem_cons.1 hplain
      rw [run_cons] at h ⊢
      obtain ⟨mid, hstep, hrest⟩ := Except.bind_eq_ok_iff.1 h
      rw [step_eq_ok_iff.2 ((step_eq_ok_iff.1 hstep).widen hsub htoken)]
      exact ih hmore hrest

end Reader

include hsub

/-- A pattern without a wildcard is read alike over the larger alphabet. -/
theorem Regex.parse_widen {pattern : List Char} {r : Regex} (hplain : WildcardFree pattern)
    (h : parse pattern alphabet = .ok r) : parse pattern larger = .ok r := by
  obtain ⟨tokens, hscan, hread⟩ := parse_eq_ok_iff.1 h
  rw [ofTokens_eq] at hread
  obtain ⟨final, hrun, hfinish⟩ := Except.bind_eq_ok_iff.1 hread
  have hlarger := Reader.run_widen hsub (hplain tokens hscan) hrun
  refine parse_eq_ok_iff.2 ⟨tokens, hscan, ?_⟩
  rw [ofTokens_eq]
  exact Except.bind_eq_ok_iff.2 ⟨final, hlarger, hfinish⟩

/-! ## Comparing -/

/-- Patterns that parse and have no wildcard are compared with the same verdict over an alphabet and
over a larger one, and are tested for inclusion with the same answer. -/
theorem comparison_widen {a b : List Char} {left right : Regex} (ha : WildcardFree a)
    (hb : WildcardFree b) (hleft : Regex.parse a alphabet = .ok left)
    (hright : Regex.parse b alphabet = .ok right) :
    (∃ v, equivalence a b alphabet {} = .ok v ∧ equivalence a b larger {} = .ok v) ∧
      ∃ answer, inclusion a b alphabet {} = .ok answer ∧ inclusion a b larger {} = .ok answer := by
  have hleft' := Regex.parse_widen hsub ha hleft
  have hright' := Regex.parse_widen hsub hb hright
  constructor
  · obtain ⟨v, hv, hdecides⟩ := exists_equivalence hleft hright
    obtain ⟨v', hv', hdecides'⟩ := exists_equivalence hleft' hright'
    obtain rfl := hdecides.unique hdecides'
    exact ⟨v, hv, hv'⟩
  · obtain ⟨answer, hanswer, hleast⟩ := exists_inclusion hleft hright
    obtain ⟨answer', hanswer', hleast'⟩ := exists_inclusion hleft' hright'
    obtain rfl := hleast.unique hleast'
    exact ⟨answer, hanswer, hanswer'⟩

omit hsub

open Regex in
/-- The symbols `A` and `c` come before and behind the columns of `a` and `b`, and lead both
automata to sinks. The witness `ba` stays. -/
theorem comparison_widen_rows :
    parse "[ab]*".toList (.ofList ['a', 'b']) = .ok (star (alt (symbol 'a') (symbol 'b'))) ∧
      parse "a*b*".toList (.ofList ['a', 'b']) = .ok (cat (star (symbol 'a')) (star (symbol 'b'))) ∧
      equivalence "[ab]*".toList "a*b*".toList (.ofList ['A', 'a', 'b', 'c']) {} =
        .ok (.different ['b', 'a'] .left) ∧
      inclusion "[ab]*".toList "a*b*".toList (.ofList ['A', 'a', 'b', 'c']) {} =
        .ok (some ['b', 'a']) := by
  have hany : parse "[ab]*".toList (.ofList ['a', 'b']) =
      .ok (star (alt (symbol 'a') (symbol 'b'))) := by decide +kernel
  have hrows : parse "a*b*".toList (.ofList ['a', 'b']) =
      .ok (cat (star (symbol 'a')) (star (symbol 'b'))) := by decide +kernel
  have hsub : ∀ c ∈ SortedSet.ofList ['a', 'b'], c ∈ SortedSet.ofList ['A', 'a', 'b', 'c'] := by
    simp
  have hverdict : equivalence "[ab]*".toList "a*b*".toList (.ofList ['a', 'b']) {} =
      .ok (.different ['b', 'a'] .left) := by decide +kernel
  have hincluded : inclusion "[ab]*".toList "a*b*".toList (.ofList ['a', 'b']) {} =
      .ok (some ['b', 'a']) := by decide +kernel
  obtain ⟨⟨v, hv, hverdict'⟩, answer, hanswer, hincluded'⟩ :=
    comparison_widen hsub (by decide +kernel) (by decide +kernel) hany hrows
  obtain rfl := Except.ok.inj (hv.symm.trans hverdict)
  obtain rfl := Except.ok.inj (hanswer.symm.trans hincluded)
  exact ⟨hany, hrows, hverdict', hincluded'⟩

end RegexEquiv
