import RegexEquiv.Proofs.Regex.PrintedDepth
import RegexEquiv.Proofs.Token.Shift

/-!
# Patterns in parentheses

The reader does not look at the offsets of tokens, so shifted tokens are read as the same tree, and
their fault is shifted (`Regex.ofTokens_shift`). So a pattern in parentheses stands for its tree as
one factor wherever it is put, and the pattern around it can be composed of such factors
(`Regex.parse_grouped`).
-/

namespace RegexEquiv

open Token

/-! ## Reading shifted tokens -/

namespace Reader

variable (alphabet : Alphabet) (offset : Nat)

/-- The reader, when its tokens stand so many characters further on. -/
def shift (reader : Reader) : Reader where
  current := reader.current
  enclosing := reader.enclosing.map fun (position, group) => (offset + position, group)

/-- No step looks at offsets, other than to keep them or to report them in a fault. -/
theorem step_shift (reader : Reader) (token : Token) :
    (reader.shift offset).step alphabet (token.shift offset) =
      (reader.step alphabet token).translate (shift offset) (Fault.shift offset) := by
  obtain ⟨current, enclosing⟩ := reader
  obtain ⟨kind, position⟩ := token
  cases kind with
  | symbol c =>
      by_cases hc : c ∈ alphabet
      · simp only [Reader.step, Token.shift, TokenKind.shift, if_pos hc]
        rfl
      · simp only [Reader.step, Token.shift, TokenKind.shift, if_neg hc]
        rfl
  | oneOf members =>
      have hfind : (members.map (ClassMember.shift offset)).find? (·.symbol ∉ alphabet) =
          (members.find? (·.symbol ∉ alphabet)).map (ClassMember.shift offset) := List.find?_map
      have hsymbols : (members.map (ClassMember.shift offset)).map (·.symbol) =
          members.map (·.symbol) := List.map_map
      simp only [Reader.step, Token.shift, TokenKind.shift, hfind, hsymbols]
      cases members.find? (·.symbol ∉ alphabet) with
      | none => rfl
      | some m => rfl
  | wildcard | bar => rfl
  | quantifier q =>
      obtain ⟨alternatives, _ | ⟨r, rest⟩⟩ := current
      · rfl
      · rfl
  | opening =>
      simp only [Reader.step, Token.shift, TokenKind.shift, Reader.shift, List.length_map]
      by_cases hroom : enclosing.length < maxNesting
      · rw [if_pos hroom, if_pos hroom]
        rfl
      · rw [if_neg hroom, if_neg hroom]
        rfl
  | closing =>
      obtain _ | ⟨⟨opened, group⟩, rest⟩ := enclosing
      · rfl
      · rfl

theorem finish_shift (reader : Reader) :
    (reader.shift offset).finish = reader.finish.translate id (Fault.shift offset) := by
  obtain ⟨current, _ | ⟨⟨opened, group⟩, rest⟩⟩ := reader
  · rfl
  · rfl

end Reader

namespace Regex

/-- Shifted tokens are read as the same tree, or have the same fault, shifted. -/
theorem ofTokens_shift (alphabet : Alphabet) (offset : Nat) (tokens : List Token) :
    ofTokens alphabet (tokens.map (Token.shift offset)) =
      (ofTokens alphabet tokens).translate id (Fault.shift offset) := by
  have hfold : Reader.start.run alphabet (tokens.map (Token.shift offset)) =
      (Reader.start.run alphabet tokens).translate (Reader.shift offset) (Fault.shift offset) :=
    Except.foldlM_translate (Reader.step_shift alphabet offset) tokens .start
  rw [ofTokens_eq, ofTokens_eq, ← Except.translate_bind _ (Reader.finish_shift offset), ← hfold]

end Regex

/-! ## Phrases with a given tree -/

namespace Grammar

variable {alphabet : Alphabet} {d depth : Nat} {r s : Regex} {kinds others : List TokenKind}

/-- `WritesFactor alphabet depth r kinds` says that tokens of some kinds write a factor over an
alphabet that nests at most as deep as given and has the given tree. -/
def WritesFactor (alphabet : Alphabet) (depth : Nat) (r : Regex) (kinds : List TokenKind) : Prop :=
  (∀ kind ∈ kinds, kind.Over alphabet) ∧
    ∃ f : Factor, kinds = f.kinds ∧ f.depth ≤ depth ∧ f.tree .compact alphabet = r

/-- `WritesExpression alphabet depth r kinds` says that tokens of some kinds write an expression
over an alphabet that nests at most as deep as given and has the given tree. -/
def WritesExpression (alphabet : Alphabet) (depth : Nat) (r : Regex) (kinds : List TokenKind) :
    Prop :=
  (∀ kind ∈ kinds, kind.Over alphabet) ∧
    ∃ x : Expression, kinds = x.kinds ∧ x.depth ≤ depth ∧ x.tree .compact alphabet = r

theorem WritesExpression.group (h : WritesExpression alphabet d r kinds) (hd : d < depth) :
    WritesFactor alphabet depth r (.opening :: kinds ++ [.closing]) := by
  obtain ⟨hover, x, rfl, hdepth, rfl⟩ := h
  refine ⟨List.forall_mem_append.2 ⟨List.forall_mem_cons.2 ⟨nofun, hover⟩,
    List.forall_mem_singleton.2 nofun⟩, .group x, rfl, ?_, rfl⟩
  exact Nat.lt_of_le_of_lt hdepth hd

theorem WritesFactor.quantified (h : WritesFactor alphabet depth r kinds) (q : Quantifier) :
    WritesFactor alphabet depth (q.apply r) (kinds ++ [.quantifier q]) := by
  obtain ⟨hover, f, rfl, hdepth, rfl⟩ := h
  exact ⟨List.forall_mem_append.2 ⟨hover, List.forall_mem_singleton.2 nofun⟩,
    .quantified f q, rfl, hdepth, rfl⟩

/-- A factor is an expression with the same tree. -/
theorem WritesFactor.single (h : WritesFactor alphabet depth r kinds) :
    WritesExpression alphabet depth r kinds := by
  obtain ⟨hover, f, rfl, hdepth, rfl⟩ := h
  refine ⟨hover, .single (.juxtaposed .blank f), rfl, ?_, ?_⟩
  · exact Nat.max_le.2 ⟨Nat.zero_le _, hdepth⟩
  · exact (Builder.compact_expression_single _).trans (Builder.compact_term_single _)

/-- Two factors, one after the other, are a chain of both trees. -/
theorem WritesFactor.cat (h : WritesFactor alphabet depth r kinds)
    (h' : WritesFactor alphabet depth s others) :
    WritesExpression alphabet depth (.cat r s) (kinds ++ others) := by
  obtain ⟨hover, f, rfl, hdepth, rfl⟩ := h
  obtain ⟨hover', g, rfl, hdepth', rfl⟩ := h'
  refine ⟨List.forall_mem_append.2 ⟨hover, hover'⟩,
    .single (.juxtaposed (.juxtaposed .blank f) g), rfl, ?_, ?_⟩
  · exact Nat.max_le.2 ⟨Nat.max_le.2 ⟨Nat.zero_le _, hdepth⟩, hdepth'⟩
  · exact (Builder.compact_expression_single _).trans (Builder.compact_term_pair _ _)

/-- Two factors with a bar between them are a choice between both trees. -/
theorem WritesFactor.alt (h : WritesFactor alphabet depth r kinds)
    (h' : WritesFactor alphabet depth s others) :
    WritesExpression alphabet depth (.alt r s) (kinds ++ .bar :: others) := by
  obtain ⟨hover, f, rfl, hdepth, rfl⟩ := h
  obtain ⟨hover', g, rfl, hdepth', rfl⟩ := h'
  refine ⟨List.forall_mem_append.2 ⟨hover, List.forall_mem_cons.2 ⟨nofun, hover'⟩⟩,
    .alternated (.single (.juxtaposed .blank f)) (.juxtaposed .blank g), rfl, ?_, ?_⟩
  · exact Nat.max_le.2 ⟨Nat.max_le.2 ⟨Nat.zero_le _, hdepth⟩,
      Nat.max_le.2 ⟨Nat.zero_le _, hdepth'⟩⟩
  · exact (Builder.compact_expression_pair _ _).trans
      (congrArg₂ Regex.alt (Builder.compact_term_single _) (Builder.compact_term_single _))

end Grammar

/-! ## Patterns as parts of patterns -/

namespace Regex

open Grammar

variable {alphabet : Alphabet} {d depth : Nat} {text more : List Char} {r s : Regex}

/-- A pattern that is read writes an expression wherever it stands. -/
theorem yields_of_parse {tokens : List Token} (h : parse text alphabet = .ok r)
    (hscan : Token.scan text = .ok tokens) :
    Yields text (WritesExpression alphabet (deepest tokens) r) := by
  obtain ⟨_, hsame, hread⟩ := parse_eq_ok_iff.1 h
  obtain rfl := Except.ok.inj (hscan.symm.trans hsame)
  refine ⟨tokens, hscan, fun offset => ?_⟩
  -- The grammar is asked about the shifted tokens themselves, since a class keeps its offsets.
  have hshift : ofTokens alphabet (tokens.map (Token.shift offset)) = .ok r := by
    rw [ofTokens_shift, hread]
    rfl
  obtain ⟨x, hkinds, hover, -, htree⟩ := ofTokens_eq_ok_iff.1 hshift
  have hdepth := (x.climbs hkinds).le_deepest
  rw [deepest_shift] at hdepth
  rw [List.map_map] at hkinds
  refine ⟨fun kind hkind => ?_, x, hkinds, hdepth, htree⟩
  obtain ⟨t, ht, rfl⟩ := List.mem_map.1 hkind
  exact hover _ (List.mem_map_of_mem ht)

/-- A text that writes an expression is read as the tree of the expression. -/
theorem parse_of_yields (h : Yields text (WritesExpression alphabet depth r))
    (hdepth : depth ≤ maxNesting) : parse text alphabet = .ok r := by
  obtain ⟨tokens, hscan, hwrites⟩ := h
  obtain ⟨hover, x, hkinds, hx, htree⟩ := hwrites 0
  have hshift : ofTokens alphabet (tokens.map (Token.shift 0)) = .ok r := by
    refine ofTokens_eq_ok_iff.2 ⟨x, List.map_map.trans hkinds, fun shifted hshifted => ?_,
      Nat.le_trans hx hdepth, htree⟩
    obtain ⟨t, ht, rfl⟩ := List.mem_map.1 hshifted
    exact hover _ (List.mem_map.2 ⟨t, ht, rfl⟩)
  rw [ofTokens_shift] at hshift
  obtain ⟨_, hread, rfl⟩ := Except.translate_eq_ok_iff.1 hshift
  exact parse_eq_ok_iff.2 ⟨tokens, hscan, hread⟩

/-- In parentheses, a pattern is a factor of any pattern that may nest deeper. -/
theorem yields_group (h : Yields text (WritesExpression alphabet d r)) (hd : d < depth) :
    Yields ('(' :: text ++ [')']) (WritesFactor alphabet depth r) := by
  have hopen : Yields ['('] (· = [.opening]) := yields_bare rfl nofun
  have hclose : Yields [')'] (· = [.closing]) := yields_bare rfl nofun
  have hfront : Yields ('(' :: text) fun kinds =>
      ∃ inner, kinds = .opening :: inner ∧ WritesExpression alphabet d r inner :=
    hopen.append h fun _ inner hkinds hinner => ⟨inner, congrArg (· ++ inner) hkinds, hinner⟩
  refine hfront.append hclose ?_
  rintro _ _ ⟨inner, rfl, hinner⟩ rfl
  exact hinner.group hd

theorem yields_quantified (h : Yields text (WritesFactor alphabet depth r)) (q : Quantifier) :
    Yields (text ++ [q.mark]) (WritesFactor alphabet depth (q.apply r)) := by
  have hmark : Yields [q.mark] (· = [.quantifier q]) := by
    cases q with
    | star | plus | optional => exact yields_bare rfl nofun
  exact h.append hmark fun kinds _ hkinds hq => hq ▸ hkinds.quantified q

theorem yields_cat (h : Yields text (WritesFactor alphabet depth r))
    (h' : Yields more (WritesFactor alphabet depth s)) :
    Yields (text ++ more) (WritesExpression alphabet depth (cat r s)) :=
  h.append h' fun _ _ => WritesFactor.cat

theorem yields_alt (h : Yields text (WritesFactor alphabet depth r))
    (h' : Yields more (WritesFactor alphabet depth s)) :
    Yields (text ++ '|' :: more) (WritesExpression alphabet depth (alt r s)) := by
  have hbar : Yields ['|'] (· = [.bar]) := yields_bare rfl nofun
  have hback : Yields ('|' :: more) fun kinds =>
      ∃ behind, kinds = .bar :: behind ∧ WritesFactor alphabet depth s behind :=
    hbar.append h' fun _ behind hkinds hbehind =>
      ⟨behind, congrArg (· ++ behind) hkinds, hbehind⟩
  refine h.append hback ?_
  rintro _ _ hkinds ⟨behind, rfl, hbehind⟩
  exact hkinds.alt hbehind

/-- A factor is an expression with the same tree. -/
theorem yields_single (h : Yields text (WritesFactor alphabet depth r)) :
    Yields text (WritesExpression alphabet depth r) := by
  obtain ⟨tokens, hscan, hwrites⟩ := h
  exact ⟨tokens, hscan, fun offset => (hwrites offset).single⟩

/-- Every pair of parentheses around a pattern makes it nest deeper by one, with the same tree. -/
theorem yields_parentheses (h : Yields text (WritesExpression alphabet depth r)) (n : Nat) :
    Yields (List.replicate n '(' ++ text ++ List.replicate n ')')
      (WritesExpression alphabet (depth + n) r) := by
  induction n with
  | zero => rwa [List.replicate_zero, List.replicate_zero, List.append_nil]
  | succ n ih =>
      have hgroup := yields_single (yields_group ih (Nat.lt_succ_self _))
      have htext : List.replicate (n + 1) '(' ++ text ++ List.replicate (n + 1) ')' =
          '(' :: (List.replicate n '(' ++ text ++ List.replicate n ')') ++ [')'] := by
        rw [List.replicate_succ, List.replicate_succ']
        simp only [List.cons_append, List.append_assoc]
      rwa [htext]

/-- Patterns that could nest one deeper can be put in parentheses and then one after another, next
to a bar, or under a quantifier, and this joins their trees. Any number of parentheses that may be
open around a pattern leaves its tree as it is. -/
theorem parse_grouped {tokens others : List Token} (h : parse text alphabet = .ok r)
    (h' : parse more alphabet = .ok s) (hscan : Token.scan text = .ok tokens)
    (hscan' : Token.scan more = .ok others) (hd : deepest tokens < maxNesting)
    (hd' : deepest others < maxNesting) :
    parse ('(' :: text ++ [')']) alphabet = .ok r ∧
      parse ('(' :: text ++ [')'] ++ '(' :: more ++ [')']) alphabet = .ok (cat r s) ∧
      parse ('(' :: text ++ [')', '|'] ++ '(' :: more ++ [')']) alphabet = .ok (alt r s) ∧
      parse ('(' :: text ++ [')', '*']) alphabet = .ok (repeated r) ∧
      parse ('(' :: text ++ [')', '+']) alphabet = .ok (repeatedOnce r) ∧
      parse ('(' :: text ++ [')', '?']) alphabet = .ok (optional r) ∧
      ∀ n, deepest tokens + n ≤ maxNesting →
        parse (List.replicate n '(' ++ text ++ List.replicate n ')') alphabet = .ok r := by
  have hpattern := yields_of_parse h hscan
  have hgroup := yields_group hpattern hd
  have hgroup' := yields_group (yields_of_parse h' hscan') hd'
  have hquantified (q : Quantifier) :
      parse ('(' :: text ++ [')', q.mark]) alphabet = .ok (q.apply r) := by
    have hparse := parse_of_yields (yields_single (yields_quantified hgroup q)) (Nat.le_refl _)
    rwa [List.append_assoc] at hparse
  refine ⟨parse_of_yields (yields_single hgroup) (Nat.le_refl _), ?_, ?_, hquantified .star,
    hquantified .plus, hquantified .optional, fun n hn => ?_⟩
  · have hparse := parse_of_yields (yields_cat hgroup hgroup') (Nat.le_refl _)
    rwa [← List.append_assoc] at hparse
  · have hparse := parse_of_yields (yields_alt hgroup hgroup') (Nat.le_refl _)
    simp only [List.append_assoc, List.cons_append, List.nil_append] at hparse ⊢
    exact hparse
  · exact parse_of_yields (yields_parentheses hpattern n) hn

/-- Behind a parenthesis the class of `[ab]|c` stands elsewhere, and its tree is the same. -/
theorem parse_grouped_class :
    parse "[ab]|c".toList (.ofList ['a', 'b', 'c']) =
        .ok (alt (alt (symbol 'a') (symbol 'b')) (symbol 'c')) ∧
      parse "b+?".toList (.ofList ['a', 'b', 'c']) = .ok (star (symbol 'b')) ∧
      parse "([ab]|c)(b+?)".toList (.ofList ['a', 'b', 'c']) =
        .ok (cat (alt (alt (symbol 'a') (symbol 'b')) (symbol 'c')) (star (symbol 'b'))) ∧
      parse "([ab]|c)+".toList (.ofList ['a', 'b', 'c']) =
        .ok (plus (alt (alt (symbol 'a') (symbol 'b')) (symbol 'c'))) ∧
      parse "((([ab]|c)))".toList (.ofList ['a', 'b', 'c']) =
        .ok (alt (alt (symbol 'a') (symbol 'b')) (symbol 'c')) := by
  have hclass : parse "[ab]|c".toList (.ofList ['a', 'b', 'c']) =
      .ok (alt (alt (symbol 'a') (symbol 'b')) (symbol 'c')) := by decide +kernel
  have hstar : parse "b+?".toList (.ofList ['a', 'b', 'c']) = .ok (star (symbol 'b')) := by
    decide +kernel
  have hscan : Token.scan "[ab]|c".toList =
      .ok [⟨.oneOf [⟨'a', 1⟩, ⟨'b', 2⟩], 0⟩, ⟨.bar, 4⟩, ⟨.symbol 'c', 5⟩] := by decide +kernel
  have hscan' : Token.scan "b+?".toList =
      .ok [⟨.symbol 'b', 0⟩, ⟨.quantifier .plus, 1⟩, ⟨.quantifier .optional, 2⟩] := by
    decide +kernel
  obtain ⟨-, hcat, -, -, hplus, -, hparentheses⟩ :=
    parse_grouped hclass hstar hscan hscan' (by decide +kernel) (by decide +kernel)
  exact ⟨hclass, hstar, hcat, hplus, hparentheses 3 (by decide +kernel)⟩

end Regex

end RegexEquiv
