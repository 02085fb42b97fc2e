import RegexEquiv.Proofs.Alphabet.Inferred
import RegexEquiv.Proofs.Token.Writing

/-!
# Reserved characters as symbols

Of the reserved characters, all but the closing bracket have a meaning wherever they stand bare
outside a class. A closing bracket has one only inside a class; elsewhere it is a symbol like any
other. So a token that is a reserved symbol is written behind a backslash, or is a bare closing
bracket (`Token.Written.of_isReserved`). A reserved character is in the alphabet of some patterns
only if one of them marks it as a symbol, by a backslash or by a class, or has a bare closing
bracket outside classes: `Alphabet.reserved_marked`. Without the exception this is false
(`Alphabet.not_reserved_marked_bracket`).
-/

namespace RegexEquiv

open Text (Stands)

/-- Where a part of a text begins, its first character stands. -/
theorem Text.Stands.getElem?_eq {c : Char} {part text : List Char} {position : Nat}
    (h : Stands (c :: part) text position) : text[position]? = some c := by
  obtain ⟨before, after, rfl, rfl⟩ := h
  simp

/-- Where two characters stand, the second is one position on. -/
theorem Text.Stands.tail {c : Char} {part text : List Char} {position : Nat}
    (h : Stands (c :: part) text position) : Stands part text (position + 1) := by
  obtain ⟨before, after, rfl, rfl⟩ := h
  exact ⟨before ++ [c], after, by simp, by simp⟩

/-- Bare reserved characters are no symbols, apart from brackets and the backslash. -/
theorem Scan.mem_of_kindOf_eq_symbol {c : Char} (hreserved : Token.isReserved c = true)
    (hkind : kindOf c = .symbol c) : c ∈ ['[', ']', '\\'] := by
  have hall : Token.reserved.all
      (fun c => decide (kindOf c = .symbol c → c ∈ ['[', ']', '\\'])) = true := by decide
  exact of_decide_eq_true (List.all_eq_true.1 hall c (List.contains_iff_mem.1 hreserved)) hkind

namespace Token

/-- `t.Marks pattern c` says that a token writes a symbol behind a backslash, or as a member of a
class. -/
inductive Marks (t : Token) (pattern : List Char) (c : Char) : Prop where
  | escaped : t.kind = .symbol c → pattern[t.position]? = some '\\' →
      pattern[t.position + 1]? = some c → Marks t pattern c
  | inClass (members : List ClassMember) (m : ClassMember) : t.kind = .oneOf members →
      m ∈ members → m.symbol = c → t.position < m.position → m.Written pattern →
      Marks t pattern c

/-- `Plain pattern` says that no wildcard is among the tokens of a pattern. -/
def Plain (pattern : List Char) : Prop :=
  ∀ tokens, scan pattern = .ok tokens → ∀ t ∈ tokens, t.kind ≠ .wildcard

variable {t : Token} {pattern : List Char} {c : Char}

theorem plain_of_scan {tokens : List Token} (hscan : scan pattern = .ok tokens)
    (h : ∀ t ∈ tokens, t.kind ≠ .wildcard) : Plain pattern := by
  intro others hothers
  obtain rfl := Except.ok.inj (hscan.symm.trans hothers)
  exact h

/-- A reserved symbol stands behind a backslash, unless it is a bare closing bracket. -/
theorem Written.of_isReserved (h : t.Written pattern) (hkind : t.kind = .symbol c)
    (hreserved : isReserved c = true) :
    Stands ['\\', c] pattern t.position ∨ c = ']' ∧ Stands [']'] pattern t.position := by
  cases h with
  | oneOf => cases hkind
  | glyph g hopen hg =>
      have hchar := g.of_kind
      rw [show g.kind = .symbol c from hkind] at hchar
      cases g with
      | escaped d =>
          obtain rfl : d = c := hchar
          exact .inl hg.stands
      | bare d =>
          obtain rfl : d = c := hchar
          have hmem := Scan.mem_of_kindOf_eq_symbol hreserved hkind
          simp only [List.mem_cons, List.not_mem_nil, or_false] at hmem
          obtain rfl | rfl | rfl := hmem
          · exact absurd rfl hopen
          · exact .inr ⟨rfl, hg.stands⟩
          · exact absurd rfl hg.proper

/-- A token that writes a reserved character marks it as a symbol, unless it is a bare closing
bracket. -/
theorem Written.marks_of_isReserved (h : t.Written pattern) (hc : c ∈ t.kind.symbols)
    (hreserved : isReserved c = true) :
    t.Marks pattern c ∨ c = ']' ∧ t.kind = .symbol ']' ∧ pattern[t.position]? = some ']' := by
  cases hkind : t.kind with
  | symbol d =>
      rw [hkind] at hc
      obtain rfl := List.mem_singleton.1 hc
      obtain hescaped | ⟨rfl, hbare⟩ := h.of_isReserved hkind hreserved
      · exact .inl (.escaped hkind hescaped.getElem?_eq hescaped.tail.getElem?_eq)
      · exact .inr ⟨rfl, rfl, hbare.getElem?_eq⟩
  | oneOf members =>
      rw [hkind] at hc
      obtain ⟨m, hm, hsymbol⟩ := List.mem_map.1 hc
      cases h with
      | oneOf _ hmembers =>
          obtain rfl := TokenKind.oneOf.inj hkind
          obtain ⟨hposition, hwritten⟩ := hmembers m hm
          exact .inl (.inClass _ m rfl hm hsymbol hposition hwritten)
      | glyph g =>
          have hnone := g.of_kind
          rw [show g.kind = .oneOf members from hkind] at hnone
          exact hnone.elim
  | wildcard | quantifier | bar | opening | closing =>
      rw [hkind] at hc
      cases hc

end Token

namespace Alphabet

/-- A token that is a reserved symbol begins with a backslash, behind which the symbol stands, or is
a bare closing bracket; so all of them begin with a backslash exactly when no token is a bare
closing bracket. If no pattern has a wildcard, then every reserved character in their alphabet is
written behind a backslash or in a class by one of them, or it is the closing bracket and stands
bare outside the classes of one of them. -/
theorem reserved_marked (pattern : List Char) (patterns : List (List Char)) :
    (∀ tokens, Token.scan pattern = .ok tokens →
      (∀ t ∈ tokens, ∀ c, t.kind = .symbol c → Token.isReserved c = true →
        pattern[t.position]? = some '\\' ∧ pattern[t.position + 1]? = some c ∨
          c = ']' ∧ pattern[t.position]? = some ']') ∧
      ((∀ t ∈ tokens, ∀ c, t.kind = .symbol c → Token.isReserved c = true →
          pattern[t.position]? = some '\\') ↔
        ∀ t ∈ tokens, t.kind = .symbol ']' → pattern[t.position]? ≠ some ']')) ∧
    ∀ alphabet, ofPatterns patterns = .ok alphabet →
      (∀ pattern ∈ patterns, Token.Plain pattern) →
      ∀ c ∈ alphabet, Token.isReserved c = true →
        ∃ pattern ∈ patterns, ∃ tokens, Token.scan pattern = .ok tokens ∧ ∃ t ∈ tokens,
          t.Marks pattern c ∨
            c = ']' ∧ t.kind = .symbol ']' ∧ pattern[t.position]? = some ']' := by
  refine ⟨fun tokens hscan => ?_, fun alphabet h hplain c hc hreserved => ?_⟩
  · have hmarked : ∀ t ∈ tokens, ∀ c, t.kind = .symbol c → Token.isReserved c = true →
        pattern[t.position]? = some '\\' ∧ pattern[t.position + 1]? = some c ∨
          c = ']' ∧ pattern[t.position]? = some ']' := by
      intro t ht c hkind hreserved
      have hwritten := Token.written_of_scan hscan t ht
      rcases hwritten.of_isReserved hkind hreserved with hescaped | ⟨rfl, hbare⟩
      · exact .inl ⟨hescaped.getElem?_eq, hescaped.tail.getElem?_eq⟩
      · exact .inr ⟨rfl, hbare.getElem?_eq⟩
    refine ⟨hmarked, fun hslash t ht hkind => ?_, fun hbare t ht c hkind hreserved => ?_⟩
    · rw [hslash t ht ']' hkind rfl]
      decide
    · rcases hmarked t ht c hkind hreserved with ⟨hslash, -⟩ | ⟨rfl, hbracket⟩
      · exact hslash
      · exact absurd hbracket (hbare t ht hkind)
  · obtain ⟨tokens, rfl, hmem⟩ := exists_ofTokens_of_ofPatterns h
    obtain ⟨t, ht, hc⟩ | ⟨⟨t, ht, hkind⟩, -⟩ := mem_ofTokens.1 hc
    · obtain ⟨pattern, hpattern, own, hscan, ht⟩ := (hmem t).1 ht
      have hwritten := Token.written_of_scan hscan t ht
      exact ⟨pattern, hpattern, own, hscan, t, ht, hwritten.marks_of_isReserved hc hreserved⟩
    · obtain ⟨pattern, hpattern, own, hscan, ht⟩ := (hmem t).1 ht
      exact absurd hkind (hplain pattern hpattern own hscan t ht)

/-- A star behind a backslash, a class from `(` to `+` and a closing bracket behind that class. -/
theorem reserved_marked_star :
    Token.scan "\\*[(-+]]".toList = .ok [⟨.symbol '*', 0⟩,
        ⟨.oneOf [⟨'(', 3⟩, ⟨')', 3⟩, ⟨'*', 3⟩, ⟨'+', 3⟩], 2⟩, ⟨.symbol ']', 7⟩] ∧
      ("\\*[(-+]]".toList[0]? = some '\\' ∧ "\\*[(-+]]".toList[1]? = some '*' ∨
        '*' = ']' ∧ "\\*[(-+]]".toList[0]? = some ']') ∧
      ofPatterns ["\\*[(-+]]".toList] = .ok (.ofList "()*+]".toList) ∧
      ∃ tokens, Token.scan "\\*[(-+]]".toList = .ok tokens ∧ ∃ t ∈ tokens,
        t.Marks "\\*[(-+]]".toList ')' ∨
          ')' = ']' ∧ t.kind = .symbol ']' ∧ "\\*[(-+]]".toList[t.position]? = some ']' := by
  have hscan : Token.scan "\\*[(-+]]".toList = .ok [⟨.symbol '*', 0⟩,
      ⟨.oneOf [⟨'(', 3⟩, ⟨')', 3⟩, ⟨'*', 3⟩, ⟨'+', 3⟩], 2⟩, ⟨.symbol ']', 7⟩] := by
    decide +kernel
  have halphabet : ofPatterns ["\\*[(-+]]".toList] = .ok (.ofList "()*+]".toList) := by
    decide +kernel
  obtain ⟨htokens, hmarked⟩ := reserved_marked "\\*[(-+]]".toList ["\\*[(-+]]".toList]
  have hstar := (htokens _ hscan).1 ⟨.symbol '*', 0⟩ (by simp) '*' rfl (by decide)
  have hplain : ∀ pattern ∈ ["\\*[(-+]]".toList], Token.Plain pattern :=
    List.forall_mem_singleton.2 (Token.plain_of_scan hscan (by decide))
  obtain ⟨pattern, hpattern, hparen⟩ := hmarked _ halphabet hplain ')'
    (SortedSet.mem_ofList.2 (by decide)) (by decide)
  obtain rfl := List.mem_singleton.1 hpattern
  exact ⟨hscan, hstar, halphabet, hparen⟩

/-- A closing bracket outside classes is a symbol without a backslash, and it is in the alphabet of
its pattern. -/
theorem not_reserved_marked_bracket :
    (¬ ∀ pattern tokens, Token.scan pattern = .ok tokens →
      ∀ t ∈ tokens, ∀ c, t.kind = .symbol c → Token.isReserved c = true →
        pattern[t.position]? = some '\\') ∧
    ¬ ∀ patterns alphabet, ofPatterns patterns = .ok alphabet →
      (∀ pattern ∈ patterns, Token.Plain pattern) →
      ∀ c ∈ alphabet, Token.isReserved c = true →
        ∃ pattern ∈ patterns, ∃ tokens, Token.scan pattern = .ok tokens ∧
          ∃ t ∈ tokens, t.Marks pattern c := by
  have hscan : Token.scan [']'] = .ok [⟨.symbol ']', 0⟩] := rfl
  refine ⟨fun h => ?_, fun h => ?_⟩
  · have hslash := h [']'] _ hscan _ (List.mem_singleton.2 rfl) ']' rfl rfl
    exact absurd hslash (by decide)
  · have hplain : ∀ pattern ∈ [[']']], Token.Plain pattern :=
      List.forall_mem_singleton.2 (Token.plain_of_scan hscan (by decide))
    obtain ⟨pattern, hpattern, tokens, htokens, t, ht, hmarks⟩ :=
      h [[']']] (.ofList [']']) rfl hplain ']' (SortedSet.mem_ofList.2 (by decide)) rfl
    obtain rfl := List.mem_singleton.1 hpattern
    obtain rfl := Except.ok.inj (hscan.symm.trans htokens)
    obtain rfl := List.mem_singleton.1 ht
    cases hmarks with
    | escaped _ hslash => exact absurd hslash (by decide)
    | inClass _ _ hkind => cases hkind

end Alphabet

end RegexEquiv
