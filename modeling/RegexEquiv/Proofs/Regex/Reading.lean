import RegexEquiv.Proofs.Regex.Step

/-!
# What the reader makes of a pattern

The reader follows the grammar. The tokens of an expression over the alphabet, in which no more
groups are open at once than are allowed, are read as the balanced and collapsed tree of the
expression, and if more are open the reader stops for that reason (`Expression.reads`). The other
way round, whatever the reader takes in without a fault is the beginning of an expression
(`Reader.Reflects`). So a list of tokens is accepted exactly when it writes an expression over the
alphabet that does not nest too deep (`Regex.ofTokens_eq_ok_iff`), and what a pattern is read as has
the language that the grammar gives to its tokens (`Regex.language_of_parse`).
-/

namespace RegexEquiv

open Grammar

variable {alphabet : Alphabet}

namespace Reader

/-! ## Reading an expression -/

/-- `Reads alphabet tokens depth reader next` says that some tokens, among which `depth` groups are
open at once, take the reader from one state to another, or are refused because that is too deep. -/
structure Reads (alphabet : Alphabet) (tokens : List Token) (depth : Nat)
    (reader next : Reader) : Prop where
  fits : reader.enclosing.length + depth ≤ maxNesting → reader.run alphabet tokens = .ok next
  tooDeep : reader.enclosing.length ≤ maxNesting →
    maxNesting < reader.enclosing.length + depth →
    ∃ position, reader.run alphabet tokens = .error ⟨position, .nestingTooDeep⟩

theorem reads_nil (reader : Reader) : Reads alphabet [] 0 reader reader where
  fits _ := rfl
  tooDeep hle hlt := absurd hlt (by omega)

/-- A token that is taken in without opening a group. -/
theorem Step.reads {reader next : Reader} {token : Token} (h : Step alphabet reader token next) :
    Reads alphabet [token] 0 reader next where
  fits _ := by
    rw [run_cons, step_eq_ok_iff.2 h]
    rfl
  tooDeep hle hlt := absurd hlt (by omega)

/-- Reading some tokens after others, the same groups being open before and after the first. -/
theorem Reads.append {tokens more : List Token} {d e : Nat} {reader mid next : Reader}
    (h : Reads alphabet tokens d reader mid) (h' : Reads alphabet more e mid next)
    (hmid : mid.enclosing.length = reader.enclosing.length) :
    Reads alphabet (tokens ++ more) (max d e) reader next where
  fits hle := by
    rw [run_append, h.fits (by omega)]
    exact h'.fits (by omega)
  tooDeep hle hlt := by
    rw [run_append]
    by_cases hfits : reader.enclosing.length + d ≤ maxNesting
    · rw [h.fits hfits]
      exact h'.tooDeep (by omega) (by omega)
    · obtain ⟨position, hposition⟩ := h.tooDeep hle (by omega)
      exact ⟨position, by rw [hposition]; rfl⟩

/-- Reading tokens between parentheses. -/
theorem Reads.group {o c : Token} {body : List Token} {d : Nat} {outer inner : Group}
    {enclosing : List (Nat × Group)} (ho : o.kind = .opening) (hc : c.kind = .closing)
    (h : Reads alphabet body d ⟨.start, (o.position, outer) :: enclosing⟩
      ⟨inner, (o.position, outer) :: enclosing⟩) :
    Reads alphabet (o :: body ++ [c]) (d + 1) ⟨outer, enclosing⟩
      ⟨outer.push inner.close, enclosing⟩ := by
  have hclose : Step alphabet ⟨inner, (o.position, outer) :: enclosing⟩ c
      ⟨outer.push inner.close, enclosing⟩ := .closing o.position outer enclosing hc rfl
  have hbody := h.append hclose.reads rfl
  by_cases hroom : enclosing.length < maxNesting
  · -- Inside, one group more is open, and the body may nest one less.
    have hopen : Step alphabet ⟨outer, enclosing⟩ o ⟨.start, (o.position, outer) :: enclosing⟩ :=
      .opening ho hroom
    constructor
    · intro hle
      rw [List.cons_append, run_cons, step_eq_ok_iff.2 hopen]
      exact hbody.fits (by simp only [List.length_cons] at hle ⊢; omega)
    · intro hle hlt
      rw [List.cons_append, run_cons, step_eq_ok_iff.2 hopen]
      exact hbody.tooDeep hroom (by simp only [List.length_cons] at hlt ⊢; omega)
  · constructor
    · intro hle
      exact absurd hle (by simp only; omega)
    · -- There is no room even for the parenthesis, whatever is in the group.
      intro hle hlt
      refine ⟨o.position, ?_⟩
      rw [List.cons_append, run_cons]
      simp only [Reader.step, ho, hroom, if_false]
      rfl

/-- A token that is a factor on its own is read as one more factor of the group at hand. -/
theorem reads_factor? {tokens : List Token} {kind : TokenKind} {f : Factor} (reader : Reader)
    (hf : kind.factor? = some f) (hkinds : tokens.map (·.kind) = [kind])
    (hover : ∀ t ∈ tokens, t.kind.Over alphabet) :
    Reads alphabet tokens 0 reader (reader.push (f.tree .compact alphabet)) := by
  obtain ⟨token, rfl, rfl⟩ := List.map_eq_singleton_iff.1 hkinds
  exact (Step.operand f hf (hover token (List.mem_singleton.2 rfl))).reads

end Reader

namespace Grammar

/-- The group of which an expression has been read. -/
def Expression.draft (alphabet : Alphabet) : Expression → Group
  | .single only => ⟨[], only.trees .compact alphabet⟩
  | .alternated earlier last => ⟨earlier.trees .compact alphabet, last.trees .compact alphabet⟩

theorem Expression.endAlternative_draft (x : Expression) :
    (x.draft alphabet).endAlternative = ⟨x.trees .compact alphabet, []⟩ := by
  cases x with
  | single only => rfl
  | alternated earlier last => rfl

theorem Expression.close_draft (x : Expression) :
    (x.draft alphabet).close = x.tree .compact alphabet := by
  cases x with
  | single only => rfl
  | alternated earlier last => rfl

mutual
/-- A factor is read as one more factor of the group at hand. -/
theorem Factor.reads {tokens : List Token} (reader : Reader) : ∀ f : Factor,
    tokens.map (·.kind) = f.kinds → (∀ t ∈ tokens, t.kind.Over alphabet) →
    Reader.Reads alphabet tokens f.depth reader (reader.push (f.tree .compact alphabet))
  | .symbol _, hkinds, hover => Reader.reads_factor? reader rfl hkinds hover
  | .oneOf _, hkinds, hover => Reader.reads_factor? reader rfl hkinds hover
  | .wildcard, hkinds, hover => Reader.reads_factor? reader rfl hkinds hover
  | .group inner, hkinds, hover => by
      obtain ⟨front, last, rfl, hfront, hlast⟩ := List.map_eq_append_iff.1 hkinds
      obtain ⟨o, body, rfl, ho, hbody⟩ := List.map_eq_cons_iff.1 hfront
      obtain ⟨c, rfl, hc⟩ := List.map_eq_singleton_iff.1 hlast
      have hinner := inner.reads ((o.position, reader.current) :: reader.enclosing) hbody
        fun t ht => hover t (by simp [ht])
      have hgroup := Reader.Reads.group ho hc hinner
      rwa [inner.close_draft] at hgroup
  | .quantified operand q, hkinds, hover => by
      obtain ⟨front, last, rfl, hfront, hlast⟩ := List.map_eq_append_iff.1 hkinds
      obtain ⟨token, rfl, hq⟩ := List.map_eq_singleton_iff.1 hlast
      have hoperand := operand.reads reader hfront fun t ht => hover t (List.mem_append_left _ ht)
      have hstep : Reader.Step alphabet (reader.push (operand.tree .compact alphabet)) token
          (reader.push (q.apply (operand.tree .compact alphabet))) := .quantifier q _ _ hq rfl
      have happend := hoperand.append hstep.reads rfl
      rwa [Nat.max_zero] at happend

/-- A term is read as the factors of an alternative. -/
theorem Term.reads {tokens : List Token} (alternatives : List Regex)
    (enclosing : List (Nat × Group)) : ∀ t : Term,
    tokens.map (·.kind) = t.kinds → (∀ t ∈ tokens, t.kind.Over alphabet) →
    Reader.Reads alphabet tokens t.depth ⟨⟨alternatives, []⟩, enclosing⟩
      ⟨⟨alternatives, t.trees .compact alphabet⟩, enclosing⟩
  | .blank, hkinds, _ => by
      obtain rfl := List.map_eq_nil_iff.1 hkinds
      exact Reader.reads_nil _
  | .juxtaposed earlier last, hkinds, hover => by
      obtain ⟨front, back, rfl, hfront, hback⟩ := List.map_eq_append_iff.1 hkinds
      have hearlier := earlier.reads alternatives enclosing hfront
        fun t ht => hover t (List.mem_append_left _ ht)
      have hlast := last.reads ⟨⟨alternatives, earlier.trees .compact alphabet⟩, enclosing⟩ hback
        fun t ht => hover t (List.mem_append_right _ ht)
      exact hearlier.append hlast rfl

/-- An expression is read as a group. -/
theorem Expression.reads {tokens : List Token} (enclosing : List (Nat × Group)) :
    ∀ x : Expression, tokens.map (·.kind) = x.kinds → (∀ t ∈ tokens, t.kind.Over alphabet) →
    Reader.Reads alphabet tokens x.depth ⟨.start, enclosing⟩ ⟨x.draft alphabet, enclosing⟩
  | .single only, hkinds, hover => only.reads [] enclosing hkinds hover
  | .alternated earlier last, hkinds, hover => by
      obtain ⟨front, back, rfl, hfront, hback⟩ := List.map_eq_append_iff.1 hkinds
      obtain ⟨token, rest, rfl, hbar, hrest⟩ := List.map_eq_cons_iff.1 hback
      have hearlier := earlier.reads enclosing hfront
        fun t ht => hover t (List.mem_append_left _ ht)
      have hstep : Reader.Step alphabet ⟨earlier.draft alphabet, enclosing⟩ token
          ⟨(earlier.draft alphabet).endAlternative, enclosing⟩ := .bar hbar
      have hlast := last.reads (earlier.trees .compact alphabet) enclosing hrest
        fun t ht => hover t (by simp [ht])
      have hback := hstep.reads.append (earlier.endAlternative_draft ▸ hlast) rfl
      have happend := hearlier.append hback rfl
      rwa [Nat.zero_max] at happend
end

/-! ## What has been read so far -/

/-- An expression with one more factor at its end. -/
def Expression.push (f : Factor) : Expression → Expression
  | .single only => .single (.juxtaposed only f)
  | .alternated earlier last => .alternated earlier (.juxtaposed last f)

theorem Expression.kinds_push (x : Expression) (f : Factor) :
    (x.push f).kinds = x.kinds ++ f.kinds := by
  cases x with
  | single only => rfl
  | alternated earlier last =>
      simp only [Expression.push, Expression.kinds, Term.kinds, List.append_assoc, List.cons_append]

theorem Expression.draft_push (x : Expression) (f : Factor) :
    (x.push f).draft alphabet = (x.draft alphabet).push (f.tree .compact alphabet) := by
  cases x with
  | single only => rfl
  | alternated earlier last => rfl

theorem Term.exists_juxtaposed {t : Term} {r : Regex} {rest : List Regex}
    (h : t.trees .compact alphabet = r :: rest) :
    ∃ (earlier : Term) (f : Factor), t = .juxtaposed earlier f ∧ f.tree .compact alphabet = r := by
  cases t with
  | blank => cases h
  | juxtaposed earlier f => exact ⟨earlier, f, rfl, (List.cons.inj h).1⟩

/-- An expression whose last alternative has a factor ends with that factor. -/
theorem Expression.exists_push {x : Expression} {r : Regex} {rest : List Regex}
    (h : (x.draft alphabet).factors = r :: rest) :
    ∃ (y : Expression) (f : Factor), x = y.push f ∧ f.tree .compact alphabet = r := by
  cases x with
  | single only =>
      obtain ⟨earlier, f, rfl, hf⟩ := Term.exists_juxtaposed h
      exact ⟨.single earlier, f, rfl, hf⟩
  | alternated front last =>
      obtain ⟨earlier, f, rfl, hf⟩ := Term.exists_juxtaposed h
      exact ⟨.alternated front earlier, f, rfl, hf⟩

end Grammar

namespace Reader

/-- `Opened alphabet enclosing kinds` says that the enclosing groups are what remains of tokens of
some kinds, the last of which opened the group at hand. -/
inductive Opened (alphabet : Alphabet) : List (Nat × Group) → List TokenKind → Prop where
  | nil : Opened alphabet [] []
  | cons {enclosing : List (Nat × Group)} {kinds : List TokenKind} (position : Nat)
      (x : Expression) : Opened alphabet enclosing kinds →
      Opened alphabet ((position, x.draft alphabet) :: enclosing) (kinds ++ x.kinds ++ [.opening])

/-- `Reflects alphabet reader kinds` says that a reader is what remains of tokens of some kinds:
they open the groups around the one at hand, and then write an expression, which is the group at
hand. -/
def Reflects (alphabet : Alphabet) (reader : Reader) (kinds : List TokenKind) : Prop :=
  ∃ (outer : List TokenKind) (x : Expression), Opened alphabet reader.enclosing outer ∧
    reader.current = x.draft alphabet ∧ kinds = outer ++ x.kinds

theorem reflects_start : Reflects alphabet .start [] := ⟨[], .single .blank, .nil, rfl, rfl⟩

/-- A factor more is read when the tokens of that factor follow. -/
theorem Reflects.push {reader : Reader} {kinds : List TokenKind}
    (h : Reflects alphabet reader kinds) (f : Factor) :
    Reflects alphabet (reader.push (f.tree .compact alphabet)) (kinds ++ f.kinds) := by
  obtain ⟨outer, x, houter, hx, rfl⟩ := h
  refine ⟨outer, x.push f, houter, ?_, ?_⟩
  · rw [x.draft_push, Reader.push, hx]
  · rw [x.kinds_push, List.append_assoc]

/-- One token more is reflected as well. -/
theorem Reflects.step {reader next : Reader} {kinds : List TokenKind} {token : Token}
    (h : Reflects alphabet reader kinds) (hstep : Step alphabet reader token next) :
    Reflects alphabet next (kinds ++ [token.kind]) := by
  cases hstep with
  | operand f hf _ =>
      rw [← TokenKind.kinds_of_factor? hf]
      exact h.push f
  | quantifier q r rest hkind hfactors =>
      obtain ⟨outer, x, houter, hx, rfl⟩ := h
      -- The factor read last is taken back and read again under the quantifier.
      rw [hx] at hfactors
      obtain ⟨y, f, rfl, rfl⟩ := Expression.exists_push hfactors
      rw [y.draft_push] at hfactors hx
      refine ⟨outer, y.push (.quantified f q), houter, ?_, ?_⟩
      · rw [y.draft_push, hx, ← (List.cons.inj hfactors).2]
        rfl
      · rw [y.kinds_push, y.kinds_push, hkind, Factor.kinds]
        simp only [List.append_assoc]
  | bar hkind =>
      obtain ⟨outer, x, houter, hx, rfl⟩ := h
      refine ⟨outer, .alternated x .blank, houter, ?_, ?_⟩
      · rw [hx, x.endAlternative_draft]
        rfl
      · rw [hkind, List.append_assoc]
        rfl
  | opening hkind _ =>
      obtain ⟨outer, x, houter, hx, rfl⟩ := h
      rw [hx, hkind]
      exact ⟨_, .single .blank, houter.cons token.position x, rfl, (List.append_nil _).symm⟩
  | closing position group rest hkind henclosing =>
      obtain ⟨outer, x, houter, hx, rfl⟩ := h
      rw [henclosing] at houter
      cases houter with
      | @cons _ outer _ y houter =>
          -- The group at hand becomes a factor of the expression that it interrupted.
          have hgroup : Reflects alphabet ⟨y.draft alphabet, rest⟩ (outer ++ y.kinds) :=
            ⟨outer, y, houter, rfl, rfl⟩
          have hpush := hgroup.push (.group x)
          rw [hx, x.close_draft, hkind]
          have hkinds : outer ++ y.kinds ++ [.opening] ++ x.kinds ++ [.closing] =
              outer ++ y.kinds ++ (Factor.group x).kinds := by
            simp only [Factor.kinds, List.append_assoc, List.cons_append, List.nil_append]
          rw [hkinds]
          exact hpush

/-- Whatever has been taken in is reflected. -/
theorem Reflects.run {reader next : Reader} {kinds : List TokenKind} {tokens : List Token}
    (h : Reflects alphabet reader kinds) (hrun : reader.run alphabet tokens = .ok next) :
    Reflects alphabet next (kinds ++ tokens.map (·.kind)) := by
  induction tokens generalizing reader kinds with
  | nil =>
      obtain rfl := Except.ok.inj hrun
      rwa [List.map_nil, List.append_nil]
  | cons token more ih =>
      rw [run_cons] at hrun
      obtain ⟨mid, hstep, hmore⟩ := Except.bind_eq_ok_iff.1 hrun
      have hnext := ih (h.step (step_eq_ok_iff.1 hstep)) hmore
      rwa [List.append_assoc] at hnext

end Reader

namespace Regex

variable {tokens : List Token} {r : Regex}

/-- Tokens are accepted exactly when they write an expression over the alphabet that does not nest
too deep, and what they are read as is its balanced tree. -/
theorem ofTokens_eq_ok_iff : ofTokens alphabet tokens = .ok r ↔
    ∃ x : Expression, tokens.map (·.kind) = x.kinds ∧ (∀ t ∈ tokens, t.kind.Over alphabet) ∧
      x.depth ≤ maxNesting ∧ x.tree .compact alphabet = r := by
  rw [ofTokens_eq, Except.bind_eq_ok_iff]
  simp only [Reader.finish_eq_ok_iff]
  constructor
  · intro h
    obtain ⟨⟨current, enclosing⟩, hrun, rfl, rfl⟩ := h
    obtain ⟨outer, x, houter, rfl, hkinds⟩ := Reader.reflects_start.run hrun
    cases houter
    have hover := Reader.over_of_run hrun
    refine ⟨x, hkinds, hover, ?_, x.close_draft.symm⟩
    -- Tokens that nest too deep would not have been taken in.
    by_contra hdeep
    obtain ⟨position, hposition⟩ := (x.reads [] hkinds hover).tooDeep (Nat.zero_le _)
      (by simp only [List.length_nil]; omega)
    rw [← Reader.start, hrun] at hposition
    cases hposition
  · intro h
    obtain ⟨x, hkinds, hover, hdepth, rfl⟩ := h
    exact ⟨_, (x.reads [] hkinds hover).fits (by simpa using hdepth), rfl, x.close_draft⟩

/-- Tokens that write an expression over the alphabet, but nest too deep, are refused for that. -/
theorem ofTokens_of_tooDeep {x : Expression} (hkinds : tokens.map (·.kind) = x.kinds)
    (hover : ∀ t ∈ tokens, t.kind.Over alphabet) (hdeep : maxNesting < x.depth) :
    ∃ position, ofTokens alphabet tokens = .error ⟨position, .nestingTooDeep⟩ := by
  obtain ⟨position, hposition⟩ := (x.reads [] hkinds hover).tooDeep (Nat.zero_le _)
    (by simpa using hdeep)
  refine ⟨position, ?_⟩
  rw [ofTokens_eq, Reader.start, hposition]
  rfl

/-- However the grammar reads the tokens, the balanced tree is the one that the reader makes. -/
theorem tree_eq_of_ofTokens (h : ofTokens alphabet tokens = .ok r) {x : Expression}
    (hkinds : tokens.map (·.kind) = x.kinds) : x.tree .compact alphabet = r := by
  obtain ⟨y, -, hover, -, -⟩ := ofTokens_eq_ok_iff.1 h
  by_cases hdepth : x.depth ≤ maxNesting
  · have hx := ofTokens_eq_ok_iff.2 ⟨x, hkinds, hover, hdepth, rfl⟩
    exact Except.ok.inj (hx.symm.trans h)
  · obtain ⟨position, hposition⟩ := ofTokens_of_tooDeep hkinds hover (Nat.lt_of_not_le hdepth)
    rw [hposition] at h
    cases h

/-- The tokens of a pattern that is read have a reading by the grammar, and every such reading has
the language of what the pattern is read as. So has the tree that goes with the reading when chains
are not balanced and quantifiers do not collapse. -/
theorem language_of_parse {pattern : List Char} (h : parse pattern alphabet = .ok r) :
    ∃ tokens, Token.scan pattern = .ok tokens ∧
      (∃ x : Expression, tokens.map (·.kind) = x.kinds) ∧
      ∀ x : Expression, tokens.map (·.kind) = x.kinds →
        r.language = x.language alphabet ∧ r.language = (x.tree .plain alphabet).language := by
  obtain ⟨tokens, hscan, hread⟩ := parse_eq_ok_iff.1 h
  obtain ⟨x, hkinds, -⟩ := ofTokens_eq_ok_iff.1 hread
  refine ⟨tokens, hscan, ⟨x, hkinds⟩, fun y hy => ?_⟩
  obtain rfl := tree_eq_of_ofTokens hread hy
  rw [y.language_tree, y.language_tree]
  exact ⟨rfl, rfl⟩

/-- Over `a`, `b` and `c`, the tree of `a+*|[cb]?.` has a star for the two stacked quantifiers, a
class in order and a balanced wildcard, and yet the language of what is written. -/
theorem language_of_parse_stacked :
    parse "a+*|[cb]?.".toList (.ofList ['a', 'b', 'c']) =
        .ok (alt (star (symbol 'a')) (cat (alt (alt (symbol 'b') (symbol 'c')) epsilon)
          (alt (alt (symbol 'a') (symbol 'b')) (symbol 'c')))) ∧
      (alt (star (symbol 'a')) (cat (alt (alt (symbol 'b') (symbol 'c')) epsilon)
          (alt (alt (symbol 'a') (symbol 'b')) (symbol 'c')))).language =
        (alt (star (plus (symbol 'a'))) (cat (alt (alt (symbol 'c') (symbol 'b')) epsilon)
          (alt (symbol 'a') (alt (symbol 'b') (symbol 'c'))))).language := by
  have hparse : parse "a+*|[cb]?.".toList (.ofList ['a', 'b', 'c']) =
      .ok (alt (star (symbol 'a')) (cat (alt (alt (symbol 'b') (symbol 'c')) epsilon)
        (alt (alt (symbol 'a') (symbol 'b')) (symbol 'c')))) := by decide +kernel
  obtain ⟨tokens, hscan, -, hreading⟩ := language_of_parse hparse
  have htokens : Token.scan "a+*|[cb]?.".toList = .ok
      [⟨.symbol 'a', 0⟩, ⟨.quantifier .plus, 1⟩, ⟨.quantifier .star, 2⟩, ⟨.bar, 3⟩,
        ⟨.oneOf [⟨'c', 5⟩, ⟨'b', 6⟩], 4⟩, ⟨.quantifier .optional, 8⟩, ⟨.wildcard, 9⟩] := by
    decide +kernel
  obtain rfl := Except.ok.inj (htokens.symm.trans hscan)
  have hlanguage := (hreading (.alternated
    (.single (.juxtaposed .blank (.quantified (.quantified (.symbol 'a') .plus) .star)))
    (.juxtaposed (.juxtaposed .blank (.quantified (.oneOf [⟨'c', 5⟩, ⟨'b', 6⟩]) .optional))
      .wildcard)) rfl).2
  exact ⟨hparse, hlanguage⟩

end Regex

end RegexEquiv
