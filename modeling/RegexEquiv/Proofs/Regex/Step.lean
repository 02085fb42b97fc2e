import RegexEquiv.Alphabet.Inferred
import RegexEquiv.Proofs.Regex.Grammar
import RegexEquiv.Proofs.Regex.Reader

/-!
# Steps of the reader

`Reader.Step` lists the ways in which the reader can take in a token, and `Reader.step_eq_ok_iff`
says that these are all the ways. What every step keeps, a run over some tokens keeps; in particular
all that is taken in is over the alphabet (`Reader.over_of_run`).
-/

namespace RegexEquiv

open Grammar

variable {alphabet : Alphabet}

/-- All symbols that a token writes are in an alphabet. -/
def TokenKind.Over (alphabet : Alphabet) (kind : TokenKind) : Prop :=
  ∀ c ∈ kind.symbols, c ∈ alphabet

/-- The factor that a token writes on its own, if it does. -/
def TokenKind.factor? : TokenKind → Option Factor
  | symbol c => some (.symbol c)
  | oneOf members => some (.oneOf members)
  | wildcard => some .wildcard
  | _ => none

theorem TokenKind.kinds_of_factor? {kind : TokenKind} {f : Factor} (h : kind.factor? = some f) :
    f.kinds = [kind] := by
  cases kind with
  | symbol | oneOf | wildcard =>
      obtain rfl := Option.some.inj h
      rfl
  | _ => cases h

namespace Reader

/-! ## One token -/

/-- `Step alphabet reader token next` says that the reader takes in a token and how it goes on. -/
inductive Step (alphabet : Alphabet) (reader : Reader) (token : Token) : Reader → Prop where
  | operand (f : Factor) : token.kind.factor? = some f → token.kind.Over alphabet →
      Step alphabet reader token (reader.push (f.tree .compact alphabet))
  | quantifier (q : Quantifier) (r : Regex) (rest : List Regex) : token.kind = .quantifier q →
      reader.current.factors = r :: rest →
      Step alphabet reader token
        ⟨⟨reader.current.alternatives, q.apply r :: rest⟩, reader.enclosing⟩
  | bar : token.kind = .bar →
      Step alphabet reader token ⟨reader.current.endAlternative, reader.enclosing⟩
  | opening : token.kind = .opening → reader.enclosing.length < maxNesting →
      Step alphabet reader token ⟨.start, (token.position, reader.current) :: reader.enclosing⟩
  | closing (position : Nat) (group : Group) (rest : List (Nat × Group)) : token.kind = .closing →
      reader.enclosing = (position, group) :: rest →
      Step alphabet reader token ⟨group.push reader.current.close, rest⟩

/-- What the reader does with a token. -/
theorem step_eq_ok_iff {reader next : Reader} {token : Token} :
    reader.step alphabet token = .ok next ↔ Step alphabet reader token next := by
  obtain ⟨kind, position⟩ := token
  constructor
  · intro h
    cases kind with
    | symbol c =>
        simp only [Reader.step] at h
        split at h
        · rename_i hc
          obtain rfl := Except.ok.inj h
          exact .operand (.symbol c) rfl (List.forall_mem_singleton.2 hc)
        · cases h
    | oneOf members =>
        simp only [Reader.step] at h
        split at h
        · cases h
        · rename_i hnone
          obtain rfl := Except.ok.inj h
          refine .operand (.oneOf members) rfl fun c hc => ?_
          obtain ⟨m, hm, rfl⟩ := List.mem_map.1 hc
          simpa using List.find?_eq_none.1 hnone m hm
    | wildcard =>
        obtain rfl := Except.ok.inj h
        rw [← Factor.tree_wildcard]
        exact .operand .wildcard rfl (List.forall_mem_nil _)
    | quantifier q =>
        simp only [Reader.step] at h
        split at h
        · cases h
        · rename_i r rest hfactors
          obtain rfl := Except.ok.inj h
          exact .quantifier q r rest rfl hfactors
    | bar =>
        obtain rfl := Except.ok.inj h
        exact .bar rfl
    | opening =>
        simp only [Reader.step] at h
        split at h
        · rename_i hlen
          obtain rfl := Except.ok.inj h
          exact .opening rfl hlen
        · cases h
    | closing =>
        simp only [Reader.step] at h
        split at h
        · cases h
        · rename_i opened group rest henclosing
          obtain rfl := Except.ok.inj h
          exact .closing opened group rest rfl henclosing
  · intro h
    cases h with
    | operand f hf hover =>
        cases kind with
        | symbol c =>
            obtain rfl := Option.some.inj hf
            have hc : c ∈ alphabet := hover c (List.mem_singleton.2 rfl)
            simp only [Reader.step, hc, if_true]
            rfl
        | oneOf members =>
            obtain rfl := Option.some.inj hf
            have hnone : members.find? (·.symbol ∉ alphabet) = none :=
              List.find?_eq_none.2 fun m hm => by
                simpa using hover m.symbol (List.mem_map.2 ⟨m, hm, rfl⟩)
            simp only [Reader.step, hnone]
            rfl
        | wildcard =>
            obtain rfl := Option.some.inj hf
            rw [Factor.tree_wildcard]
            rfl
        | _ => cases hf
    | quantifier q r rest hkind hfactors =>
        obtain rfl : kind = .quantifier q := hkind
        simp only [Reader.step, hfactors]
    | bar hkind =>
        obtain rfl : kind = .bar := hkind
        rfl
    | opening hkind hlen =>
        obtain rfl : kind = .opening := hkind
        simp only [Reader.step, hlen, if_true]
    | closing opened group rest hkind henclosing =>
        obtain rfl : kind = .closing := hkind
        simp only [Reader.step, henclosing]

/-! ## Some tokens -/

theorem Step.over {reader next : Reader} {token : Token} (h : Step alphabet reader token next) :
    token.kind.Over alphabet := by
  cases h with
  | operand f _ hover => exact hover
  | quantifier q r rest hkind => exact hkind ▸ nofun
  | bar hkind => exact hkind ▸ nofun
  | opening hkind => exact hkind ▸ nofun
  | closing position group rest hkind => exact hkind ▸ nofun

/-- Whatever has been taken in is over the alphabet. -/
theorem over_of_run {reader next : Reader} {tokens : List Token}
    (hrun : reader.run alphabet tokens = .ok next) : ∀ t ∈ tokens, t.kind.Over alphabet := by
  induction tokens generalizing reader with
  | nil => exact nofun
  | cons token more ih =>
      rw [run_cons] at hrun
      obtain ⟨mid, hstep, hmore⟩ := Except.bind_eq_ok_iff.1 hrun
      exact List.forall_mem_cons.2 ⟨(step_eq_ok_iff.1 hstep).over, ih hmore⟩

theorem finish_eq_ok_iff {reader : Reader} {r : Regex} :
    reader.finish = .ok r ↔ reader.enclosing = [] ∧ reader.current.close = r := by
  unfold finish
  split
  · rename_i henclosing
    simp [henclosing]
  · rename_i henclosing
    simp [henclosing]

end Reader

namespace Regex

variable {pattern : List Char} {tokens : List Token}

/-! ## A pattern -/

/-- A pattern is read as its tokens are. -/
theorem parse_of_scan (h : Token.scan pattern = .ok tokens) :
    parse pattern alphabet =
      (ofTokens alphabet tokens).mapError fun fault => { fault with pattern } := by
  rw [parse, h]
  rfl

theorem parse_eq_ok_iff {r : Regex} : parse pattern alphabet = .ok r ↔
    ∃ tokens, Token.scan pattern = .ok tokens ∧ ofTokens alphabet tokens = .ok r :=
  Except.mapError_eq_ok_iff.trans Except.bind_eq_ok_iff

end Regex

end RegexEquiv
