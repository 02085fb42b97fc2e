import Mathlib.Data.List.Induction
import RegexEquiv.Proofs.Regex.Step
import RegexEquiv.Proofs.Token.Nesting

/-!
# Which patterns are refused, and why

Whether the tokens of a pattern are accepted can be told by going through them from left to right
and counting the open groups. `Regex.offence?` says what is wrong with a token behind the tokens
before it. `Regex.Outcome` says what this comes to: the first token with which something is wrong
decides; if there is none, but groups are open at the end, the innermost of them is at fault;
otherwise the tokens are accepted. The reader keeps more, but it comes to the same
(`Reader.Tracks`), and so does reading a pattern (`Regex.parse_outcome`).
-/

namespace RegexEquiv

open Token

variable {alphabet : Alphabet}

namespace Regex

/-- Whether a quantifier behind some tokens has nothing to apply to: it is the first token, or
follows a bar or a parenthesis that opens a group. -/
def lacksOperand (before : List Token) : Bool :=
  before.getLast?.all fun last => last.kind = .opening ∨ last.kind = .bar

/-- What is wrong with a token behind some others, if anything is. -/
def offence? (alphabet : Alphabet) (before : List Token) (token : Token) : Option Fault :=
  match token.kind with
  | .closing => if openGroups before = 0 then some ⟨token.position, .unopenedGroup⟩ else none
  | .opening =>
      if openGroups before = maxNesting then some ⟨token.position, .nestingTooDeep⟩ else none
  | .quantifier _ =>
      if lacksOperand before then some ⟨token.position, .missingOperand⟩ else none
  | .symbol c => if c ∈ alphabet then none else some ⟨token.position, .unknownSymbol c⟩
  | .oneOf members =>
      (members.find? (·.symbol ∉ alphabet)).map fun m => ⟨m.position, .unknownSymbol m.symbol⟩
  | .wildcard | .bar => none

/-- `Clean alphabet tokens` says that nothing is wrong with any of some tokens. -/
def Clean (alphabet : Alphabet) (tokens : List Token) : Prop :=
  ∀ before token after, tokens = before ++ token :: after → offence? alphabet before token = none

/-- `Outcome alphabet tokens outcome` says what going through some tokens comes to. -/
inductive Outcome (alphabet : Alphabet) (tokens : List Token) : Except Fault Unit → Prop where
  /-- The first token with which something is wrong decides. -/
  | offence (before : List Token) (token : Token) (after : List Token) (fault : Fault) :
      tokens = before ++ token :: after → Clean alphabet before →
      offence? alphabet before token = some fault → Outcome alphabet tokens (.error fault)
  /-- If there is none, the innermost group that is left open is at fault. -/
  | unclosed (before : List Token) (token : Token) (after : List Token) :
      Clean alphabet tokens → tokens = before ++ token :: after → token.kind = .opening →
      Balanced after → Outcome alphabet tokens (.error ⟨token.position, .unclosedGroup⟩)
  /-- If no group is left open, the tokens are accepted. -/
  | accepted : Clean alphabet tokens → openGroups tokens = 0 → Outcome alphabet tokens (.ok ())

end Regex

namespace Reader

/-- `Tracks reader tokens` says that a reader knows which groups some tokens leave open and whether
a quantifier can follow. -/
structure Tracks (reader : Reader) (tokens : List Token) : Prop where
  opens : Opens tokens (reader.enclosing.map (·.1))
  operand : reader.current.factors = [] ↔ Regex.lacksOperand tokens = true
  bounded : reader.enclosing.length ≤ maxNesting

theorem tracks_start : Tracks .start [] where
  opens := .settled balanced_nil
  operand := iff_of_true rfl rfl
  bounded := Nat.zero_le _

variable {reader next : Reader} {tokens : List Token} {token : Token}

theorem Tracks.openGroups_eq (h : Tracks reader tokens) :
    openGroups tokens = reader.enclosing.length := by
  rw [h.opens.openGroups_eq, List.length_map]

theorem lacksOperand_concat (tokens : List Token) (token : Token) :
    Regex.lacksOperand (tokens ++ [token]) = true ↔
      token.kind = .opening ∨ token.kind = .bar := by
  rw [Regex.lacksOperand, List.getLast?_concat]
  exact decide_eq_true_iff

/-- The positions that a reader keeps are those of the groups that are left open. -/
theorem Step.opens (h : Step alphabet reader token next)
    (hopens : Opens tokens (reader.enclosing.map (·.1))) :
    Opens (tokens ++ [token]) (next.enclosing.map (·.1)) := by
  cases h with
  | operand f hf =>
      refine hopens.concat (fun hkind => ?_) fun hkind => ?_
      · rw [hkind] at hf
        cases hf
      · rw [hkind] at hf
        cases hf
  | quantifier q r rest hkind => exact hopens.concat (by simp [hkind]) (by simp [hkind])
  | bar hkind => exact hopens.concat (by simp [hkind]) (by simp [hkind])
  | opening hkind => exact .opened hopens hkind balanced_nil
  | closing position group rest hkind henclosing =>
      rw [henclosing] at hopens
      exact hopens.close hkind

/-- Behind a token there is no factor exactly when the token opens a group or is a bar. -/
theorem Step.factors_eq_nil_iff (h : Step alphabet reader token next) :
    next.current.factors = [] ↔ token.kind = .opening ∨ token.kind = .bar := by
  cases h with
  | operand f hf =>
      refine iff_of_false (List.cons_ne_nil _ _) fun hkind => ?_
      obtain hkind | hkind := hkind
      · rw [hkind] at hf
        cases hf
      · rw [hkind] at hf
        cases hf
  | quantifier q r rest hkind => exact iff_of_false (List.cons_ne_nil _ _) (by simp [hkind])
  | bar hkind => exact iff_of_true rfl (.inr hkind)
  | opening hkind => exact iff_of_true rfl (.inl hkind)
  | closing position group rest hkind =>
      -- The group that is closed is a factor now, so a quantifier can follow.
      exact iff_of_false (List.cons_ne_nil _ _) (by simp [hkind])

theorem Step.length_enclosing_le (h : Step alphabet reader token next)
    (hbounded : reader.enclosing.length ≤ maxNesting) : next.enclosing.length ≤ maxNesting := by
  cases h with
  | operand | quantifier | bar => exact hbounded
  | opening _ hroom => exact hroom
  | closing position group rest _ henclosing =>
      rw [henclosing] at hbounded
      exact Nat.le_of_succ_le hbounded

/-- What is tracked before a token is taken in is tracked after it. -/
theorem Tracks.step (h : Tracks reader tokens) (hstep : Step alphabet reader token next) :
    Tracks next (tokens ++ [token]) where
  opens := hstep.opens h.opens
  operand := hstep.factors_eq_nil_iff.trans (lacksOperand_concat tokens token).symm
  bounded := hstep.length_enclosing_le h.bounded

/-- The reader refuses a token exactly when something is wrong with it. -/
theorem Tracks.step_eq_error_iff (h : Tracks reader tokens) {fault : Fault} :
    reader.step alphabet token = .error fault ↔
      Regex.offence? alphabet tokens token = some fault := by
  have hopen := h.openGroups_eq
  obtain ⟨kind, position⟩ := token
  cases kind with
  | symbol c =>
      simp only [Reader.step, Regex.offence?]
      split <;> simp
  | oneOf members =>
      simp only [Reader.step, Regex.offence?]
      split
      · rename_i m hm
        rw [hm, Except.error.injEq, Option.map_some, Option.some.injEq]
      · rename_i hnone
        rw [hnone]
        simp
  | wildcard => simp [Reader.step, Regex.offence?]
  | quantifier q =>
      have hoperand := h.operand
      simp only [Reader.step, Regex.offence?]
      split
      · rename_i hfactors
        simp [hoperand.1 hfactors]
      · rename_i r rest hfactors
        have hfollows : Regex.lacksOperand tokens = false := by
          rw [← Bool.not_eq_true, ← hoperand, hfactors]
          exact List.cons_ne_nil r rest
        simp [hfollows]
  | bar => simp [Reader.step, Regex.offence?]
  | opening =>
      have hbounded := h.bounded
      simp only [Reader.step, Regex.offence?, hopen]
      by_cases hroom : reader.enclosing.length < maxNesting
      · rw [if_pos hroom, if_neg (Nat.ne_of_lt hroom)]
        simp
      · rw [if_neg hroom, if_pos (by omega), Except.error.injEq, Option.some.injEq]
  | closing =>
      simp only [Reader.step, Regex.offence?, hopen]
      split
      · rename_i henclosing
        simp [henclosing]
      · rename_i henclosing
        simp [henclosing]

/-- What has been taken in is tracked. -/
theorem tracks_of_run (h : Reader.start.run alphabet tokens = .ok reader) :
    Tracks reader tokens := by
  induction tokens using List.reverseRecOn generalizing reader with
  | nil =>
      obtain rfl := Except.ok.inj h
      exact tracks_start
  | append_singleton before token ih =>
      rw [run_append] at h
      obtain ⟨mid, hbefore, htoken⟩ := Except.bind_eq_ok_iff.1 h
      obtain ⟨next, hstep, hnil⟩ := Except.bind_eq_ok_iff.1 (run_cons mid token [] ▸ htoken)
      obtain rfl := Except.ok.inj hnil
      exact (ih hbefore).step (step_eq_ok_iff.1 hstep)

/-- The reader takes in some tokens exactly when nothing is wrong with any of them. -/
theorem exists_run_iff :
    (∃ reader, Reader.start.run alphabet tokens = .ok reader) ↔ Regex.Clean alphabet tokens := by
  constructor
  · intro h before token after htokens
    obtain ⟨reader, hrun⟩ := h
    rw [htokens, run_append] at hrun
    obtain ⟨mid, hbefore, hrest⟩ := Except.bind_eq_ok_iff.1 hrun
    rw [run_cons] at hrest
    obtain ⟨next, hstep, -⟩ := Except.bind_eq_ok_iff.1 hrest
    refine Option.eq_none_iff_forall_ne_some.2 fun fault hfault => ?_
    rw [(tracks_of_run hbefore).step_eq_error_iff.2 hfault] at hstep
    cases hstep
  · intro h
    cases hrun : Reader.start.run alphabet tokens with
    | ok reader => exact ⟨reader, rfl⟩
    | error fault =>
        obtain ⟨before, token, after, mid, rfl, hbefore, hstep⟩ :=
          Except.foldlM_eq_error_iff.1 hrun
        have hfault := (tracks_of_run hbefore).step_eq_error_iff.1 hstep
        rw [h before token after rfl] at hfault
        cases hfault

theorem finish_unclosed {reader : Reader} {position : Nat}
    (h : (reader.enclosing.map (·.1)).head? = some position) :
    reader.finish = .error ⟨position, .unclosedGroup⟩ := by
  obtain ⟨current, _ | ⟨⟨opened, group⟩, rest⟩⟩ := reader
  · cases h
  · obtain rfl := Option.some.inj h
    rfl

end Reader

namespace Regex

variable {tokens : List Token} {outcome : Except Fault Unit}

/-- What going through some tokens comes to is what reading them comes to. -/
theorem Outcome.eq_map_ofTokens (h : Outcome alphabet tokens outcome) :
    (ofTokens alphabet tokens).map (fun _ => ()) = outcome := by
  rw [ofTokens_eq]
  cases h with
  | offence before token after fault htokens hbefore hfault =>
      obtain ⟨mid, hmid⟩ := Reader.exists_run_iff.2 hbefore
      have hstep := (Reader.tracks_of_run hmid).step_eq_error_iff.2 hfault
      -- The first token that the reader refuses ends the reading.
      have hrun := Except.foldlM_eq_error_iff.2 ⟨before, token, after, mid, htokens, hmid, hstep⟩
      rw [Reader.run, hrun]
      rfl
  | unclosed before token after hclean htokens hkind hafter =>
      obtain ⟨reader, hrun⟩ := Reader.exists_run_iff.2 hclean
      have hopens := (Reader.tracks_of_run hrun).opens
      rw [htokens] at hopens
      have hfinish := Reader.finish_unclosed (hopens.innermost hkind hafter)
      rw [hrun]
      show (Reader.finish reader).map _ = _
      rw [hfinish]
      rfl
  | accepted hclean hsettled =>
      obtain ⟨reader, hrun⟩ := Reader.exists_run_iff.2 hclean
      rw [(Reader.tracks_of_run hrun).openGroups_eq, List.length_eq_zero_iff] at hsettled
      have hfinish := Reader.finish_eq_ok_iff.2 ⟨hsettled, rfl⟩
      rw [hrun]
      show (Reader.finish reader).map _ = _
      rw [hfinish]
      rfl

/-- Going through some tokens comes to something. -/
theorem exists_outcome (alphabet : Alphabet) (tokens : List Token) :
    ∃ outcome, Outcome alphabet tokens outcome := by
  cases hrun : Reader.start.run alphabet tokens with
  | error fault =>
      obtain ⟨before, token, after, mid, rfl, hbefore, hstep⟩ := Except.foldlM_eq_error_iff.1 hrun
      have hfault := (Reader.tracks_of_run hbefore).step_eq_error_iff.1 hstep
      have hclean := Reader.exists_run_iff.1 ⟨mid, hbefore⟩
      exact ⟨_, .offence before token after fault rfl hclean hfault⟩
  | ok reader =>
      have hclean := Reader.exists_run_iff.1 ⟨reader, hrun⟩
      have htracks := Reader.tracks_of_run hrun
      have hopens := htracks.opens
      cases henclosing : reader.enclosing with
      | nil => exact ⟨_, .accepted hclean (by rw [htracks.openGroups_eq, henclosing]; rfl)⟩
      | cons innermost rest =>
          obtain ⟨position, group⟩ := innermost
          rw [henclosing] at hopens
          cases hopens with
          | @opened before after token _ _ hkind hafter =>
              exact ⟨_, .unclosed before token after hclean rfl hkind hafter⟩

/-- Apart from the tree, going through some tokens and reading them come to the same. -/
theorem outcome_iff :
    Outcome alphabet tokens outcome ↔ (ofTokens alphabet tokens).map (fun _ => ()) = outcome := by
  constructor
  · exact Outcome.eq_map_ofTokens
  · rintro rfl
    obtain ⟨outcome, h⟩ := exists_outcome alphabet tokens
    exact h.eq_map_ofTokens ▸ h

/-- A pattern that cannot be split into tokens is refused for that. If it can, going through its
tokens comes to one thing, and reading the pattern comes to the same. -/
theorem parse_outcome (pattern : List Char) (alphabet : Alphabet) :
    (∀ fault, Token.scan pattern = .error fault →
      parse pattern alphabet = .error { fault with pattern }) ∧
    ∀ tokens, Token.scan pattern = .ok tokens → ∃ outcome,
      (∀ other, Outcome alphabet tokens other ↔ other = outcome) ∧
      (parse pattern alphabet).map (fun _ => ()) =
        outcome.mapError fun fault => { fault with pattern } := by
  constructor
  · intro fault hscan
    rw [parse, hscan]
    rfl
  · intro tokens hscan
    refine ⟨(ofTokens alphabet tokens).map fun _ => (), fun other => ?_, ?_⟩
    · rw [outcome_iff, eq_comm]
    · rw [parse_of_scan hscan]
      cases ofTokens alphabet tokens with
      | error fault => rfl
      | ok r => rfl

/-- A lone backslash at the end is at fault before any token is looked at. In `(a)(b(a)` no token is
at fault, and of the groups the second is left open. -/
theorem parse_outcome_second_group :
    parse ")*\\".toList (.ofList ['a', 'b']) =
        .error ⟨⟨2, .danglingEscape⟩, ")*\\".toList⟩ ∧
      Outcome (.ofList ['a', 'b'])
        [⟨.opening, 0⟩, ⟨.symbol 'a', 1⟩, ⟨.closing, 2⟩, ⟨.opening, 3⟩, ⟨.symbol 'b', 4⟩,
          ⟨.opening, 5⟩, ⟨.symbol 'a', 6⟩, ⟨.closing, 7⟩]
        (.error ⟨3, .unclosedGroup⟩) := by
  have hdangling : Token.scan ")*\\".toList = .error ⟨2, .danglingEscape⟩ := by decide +kernel
  have hscan : Token.scan "(a)(b(a)".toList = .ok
      [⟨.opening, 0⟩, ⟨.symbol 'a', 1⟩, ⟨.closing, 2⟩, ⟨.opening, 3⟩, ⟨.symbol 'b', 4⟩,
        ⟨.opening, 5⟩, ⟨.symbol 'a', 6⟩, ⟨.closing, 7⟩] := by decide +kernel
  have hparse : (parse "(a)(b(a)".toList (.ofList ['a', 'b'])).map (fun _ => ()) =
      .error ⟨⟨3, .unclosedGroup⟩, "(a)(b(a)".toList⟩ := by decide +kernel
  refine ⟨(parse_outcome _ _).1 _ hdangling, ?_⟩
  obtain ⟨outcome, honly, hresult⟩ := (parse_outcome _ _).2 _ hscan
  rw [hparse] at hresult
  cases outcome with
  | error fault =>
      obtain ⟨rfl, -⟩ := SyntaxError.mk.inj (Except.error.inj hresult)
      exact (honly _).2 rfl
  | ok u => cases hresult

end Regex

end RegexEquiv
