import RegexEquiv.Proofs.Regex.Mentions
import RegexEquiv.Proofs.Regex.Outcome

/-!
# The alphabet of some patterns suffices and has nothing to spare

The alphabet of some patterns has the symbols that their tokens write and, if there is a wildcard
among them, the printable characters (`Alphabet.mem_ofTokens`). So a pattern among them that is
refused over this alphabet is refused for the way in which its tokens stand together
(`Regex.structural_of_ofTokens`), and the symbols of what the patterns are read as make up the whole
alphabet, since a wildcard is read as all of it. `Alphabet.ofPatterns_exact` says all this, and that
neither the order of the patterns nor their repetition matters.
-/

namespace RegexEquiv

/-- The cause lies in how tokens stand together, and neither in a symbol nor in how a token is
written. -/
def FaultCause.Structural : FaultCause → Prop
  | unclosedGroup | unopenedGroup | missingOperand | nestingTooDeep => True
  | unknownSymbol _ | danglingEscape | unclosedClass | invalidRange _ _ => False

namespace Regex

variable {alphabet : Alphabet} {before tokens : List Token} {token : Token} {fault : Fault}

/-- What is wrong with a token over the alphabet is how it stands among the others. -/
theorem structural_of_offence? (hover : token.kind.Over alphabet)
    (h : offence? alphabet before token = some fault) : fault.cause.Structural := by
  obtain ⟨kind, position⟩ := token
  cases kind with
  | symbol c =>
      have hc : c ∈ alphabet := hover c (List.mem_singleton.2 rfl)
      simp [offence?, hc] at h
  | oneOf members =>
      obtain ⟨m, hm, -⟩ := Option.map_eq_some_iff.1 h
      have hmem : m.symbol ∈ alphabet :=
        hover m.symbol (List.mem_map_of_mem (List.mem_of_find?_eq_some hm))
      exact absurd hmem (by simpa using List.find?_some hm)
  | wildcard | bar => cases h
  | quantifier | opening | closing =>
      simp only [offence?, Option.ite_none_right_eq_some] at h
      obtain ⟨-, h⟩ := h
      obtain rfl := Option.some.inj h
      trivial

/-- Tokens over the alphabet that are refused are refused for how they stand together. -/
theorem structural_of_ofTokens (hover : ∀ t ∈ tokens, t.kind.Over alphabet)
    (h : ofTokens alphabet tokens = .error fault) : fault.cause.Structural := by
  have houtcome : Outcome alphabet tokens (.error fault) := outcome_iff.2 (by rw [h]; rfl)
  cases houtcome with
  | offence before token after _ htokens _ hfault =>
      exact structural_of_offence? (hover token (by simp [htokens])) hfault
  | unclosed => trivial

end Regex

namespace Alphabet

variable {alphabet : Alphabet} {patterns : List (List Char)} {tokens : List Token} {c : Char}

/-! ## The symbols of some tokens -/

theorem mem_ofTokens : c ∈ ofTokens tokens ↔
    (∃ t ∈ tokens, c ∈ t.kind.symbols) ∨ (∃ t ∈ tokens, t.kind = .wildcard) ∧ c ∈ printable := by
  unfold ofTokens
  simp only [List.any_eq_true, beq_iff_eq]
  split
  · rename_i hwildcard
    simp [hwildcard]
  · rename_i hplain
    simp [hplain]

/-- Tokens are over their alphabet. -/
theorem over_ofTokens {t : Token} (ht : t ∈ tokens) : t.kind.Over (ofTokens tokens) :=
  fun _ hc => mem_ofTokens.2 (.inl ⟨t, ht, hc⟩)

/-- The alphabet of some tokens is what they mention over it. -/
theorem mem_ofTokens_iff_mentions :
    c ∈ ofTokens tokens ↔ ∃ t ∈ tokens, t.kind.Mentions (ofTokens tokens) c := by
  constructor
  · intro hc
    obtain ⟨t, ht, hwritten⟩ | ⟨⟨t, ht, hwildcard⟩, -⟩ := mem_ofTokens.1 hc
    · exact ⟨t, ht, .inl hwritten⟩
    · exact ⟨t, ht, .inr ⟨hwildcard, hc⟩⟩
  · rintro ⟨t, ht, hwritten | ⟨-, hc⟩⟩
    · exact over_ofTokens ht c hwritten
    · exact hc

/-- Which tokens there are decides on the alphabet, and not in what order they come. -/
theorem ofTokens_congr {more : List Token} (h : ∀ t, t ∈ tokens ↔ t ∈ more) :
    ofTokens tokens = ofTokens more :=
  SortedSet.ext_mem fun c => by simp only [mem_ofTokens, h]

/-! ## The alphabet of some patterns -/

/-- Patterns have an alphabet when each of them can be split into tokens. -/
theorem exists_ofPatterns_iff : (∃ alphabet, ofPatterns patterns = .ok alphabet) ↔
    ∀ pattern ∈ patterns, ∃ tokens, Token.scan pattern = .ok tokens := by
  constructor
  · intro h pattern hpattern
    obtain ⟨_, h⟩ := h
    obtain ⟨lists, hlists, -⟩ := Except.bind_eq_ok_iff.1 h
    obtain ⟨tokens, htokens⟩ := Except.exists_mapM_iff.1 ⟨lists, hlists⟩ pattern hpattern
    exact ⟨tokens, Except.mapError_eq_ok_iff.1 htokens⟩
  · intro h
    obtain ⟨lists, hlists⟩ : ∃ lists, (patterns.mapM fun pattern => (Token.scan pattern).mapError
        fun fault => ({ fault with pattern } : SyntaxError)) = .ok lists :=
      Except.exists_mapM_iff.2 fun pattern hpattern =>
        (h pattern hpattern).imp fun _ => Except.mapError_eq_ok_iff.2
    exact ⟨ofTokens lists.flatten, Except.bind_eq_ok_iff.2 ⟨lists, hlists, rfl⟩⟩

/-- The first pattern that cannot be split into tokens is reported. -/
theorem ofPatterns_eq_error_iff {e : SyntaxError} : ofPatterns patterns = .error e ↔
    ∃ before pattern after fault, patterns = before ++ pattern :: after ∧
      (∀ p ∈ before, ∃ tokens, Token.scan p = .ok tokens) ∧
      Token.scan pattern = .error fault ∧ { fault with pattern } = e := by
  rw [ofPatterns, Except.bind_pure_eq_error_iff, Except.mapM_eq_error_iff]
  simp only [Except.mapError_eq_ok_iff, Except.mapError_eq_error_iff, exists_and_left]

/-- Some patterns have no alphabet when one of them cannot be split into tokens. -/
theorem exists_ofPatterns_error_iff : (∃ e, ofPatterns patterns = .error e) ↔
    ∃ pattern ∈ patterns, ∃ fault, Token.scan pattern = .error fault := by
  constructor
  · intro h
    obtain ⟨e, he⟩ := h
    obtain ⟨before, pattern, after, fault, rfl, -, hfault, -⟩ := ofPatterns_eq_error_iff.1 he
    exact ⟨pattern, by simp, fault, hfault⟩
  · intro h
    obtain ⟨pattern, hpattern, fault, hfault⟩ := h
    cases hresult : ofPatterns patterns with
    | error e => exact ⟨e, rfl⟩
    | ok alphabet =>
        obtain ⟨tokens, hscan⟩ := exists_ofPatterns_iff.1 ⟨alphabet, hresult⟩ pattern hpattern
        rw [hfault] at hscan
        cases hscan

/-- The alphabet of some patterns is that of all their tokens. -/
theorem exists_ofTokens_of_ofPatterns (h : ofPatterns patterns = .ok alphabet) :
    ∃ tokens, ofTokens tokens = alphabet ∧
      ∀ t, t ∈ tokens ↔ ∃ pattern ∈ patterns, ∃ own, Token.scan pattern = .ok own ∧ t ∈ own := by
  obtain ⟨lists, hlists, halphabet⟩ := Except.bind_eq_ok_iff.1 h
  obtain rfl := Except.ok.inj halphabet
  refine ⟨lists.flatten, rfl, fun t => ?_⟩
  rw [List.mem_flatten]
  simp only [Except.mem_of_mapM hlists, Except.mapError_eq_ok_iff]
  constructor
  · intro ht
    obtain ⟨own, ⟨pattern, hpattern, hscan⟩, ht⟩ := ht
    exact ⟨pattern, hpattern, own, hscan, ht⟩
  · intro ht
    obtain ⟨pattern, hpattern, own, hscan, ht⟩ := ht
    exact ⟨own, ⟨pattern, hpattern, hscan⟩, ht⟩

/-- Over their alphabet, patterns are refused for how their tokens stand together. -/
theorem structural_of_ofPatterns (h : ofPatterns patterns = .ok alphabet) {pattern : List Char}
    (hpattern : pattern ∈ patterns) {e : SyntaxError}
    (hparse : Regex.parse pattern alphabet = .error e) : e.cause.Structural := by
  obtain ⟨own, hscan⟩ := exists_ofPatterns_iff.1 ⟨alphabet, h⟩ pattern hpattern
  obtain ⟨tokens, rfl, hmem⟩ := exists_ofTokens_of_ofPatterns h
  rw [Regex.parse_of_scan hscan] at hparse
  obtain ⟨fault, hread, rfl⟩ := Except.mapError_eq_error_iff.1 hparse
  refine Regex.structural_of_ofTokens (fun t ht => ?_) hread
  exact over_ofTokens ((hmem t).2 ⟨pattern, hpattern, own, hscan, ht⟩)

/-- The alphabet of some patterns is made up of the symbols of what they are read as. -/
theorem mem_ofPatterns_iff (h : ofPatterns patterns = .ok alphabet) {trees : List Regex}
    (htrees : patterns.mapM (Regex.parse · alphabet) = .ok trees) :
    c ∈ alphabet ↔ ∃ r ∈ trees, c ∈ r.symbols := by
  obtain ⟨tokens, rfl, hmem⟩ := exists_ofTokens_of_ofPatterns h
  rw [mem_ofTokens_iff_mentions]
  constructor
  · intro hc
    obtain ⟨t, ht, hmentions⟩ := hc
    obtain ⟨pattern, hpattern, own, hscan, ht⟩ := (hmem t).1 ht
    obtain ⟨r, hr⟩ := Except.exists_mapM_iff.1 ⟨trees, htrees⟩ pattern hpattern
    obtain ⟨own', hscan', hsymbols⟩ := Regex.mem_symbols_of_parse hr
    obtain rfl := Except.ok.inj (hscan.symm.trans hscan')
    exact ⟨r, (Except.mem_of_mapM htrees).2 ⟨pattern, hpattern, hr⟩,
      (hsymbols c).2 ⟨t, ht, hmentions⟩⟩
  · intro hc
    obtain ⟨r, hr, hc⟩ := hc
    obtain ⟨pattern, hpattern, hr⟩ := (Except.mem_of_mapM htrees).1 hr
    obtain ⟨own, hscan, hsymbols⟩ := Regex.mem_symbols_of_parse hr
    obtain ⟨t, ht, hmentions⟩ := (hsymbols c).1 hc
    exact ⟨t, (hmem t).2 ⟨pattern, hpattern, own, hscan, ht⟩, hmentions⟩

/-- Neither the order of patterns nor their repetition changes their alphabet. -/
theorem ofPatterns_congr (h : ofPatterns patterns = .ok alphabet) {others : List (List Char)}
    (hothers : ∀ p, p ∈ others ↔ p ∈ patterns) : ofPatterns others = .ok alphabet := by
  have hscan := exists_ofPatterns_iff.1 ⟨alphabet, h⟩
  obtain ⟨alphabet', h'⟩ : ∃ alphabet', ofPatterns others = .ok alphabet' :=
    exists_ofPatterns_iff.2 fun p hp => hscan p ((hothers p).1 hp)
  obtain ⟨tokens, rfl, hmem⟩ := exists_ofTokens_of_ofPatterns h
  obtain ⟨more, rfl, hmem'⟩ := exists_ofTokens_of_ofPatterns h'
  rw [h', ofTokens_congr fun t => ?_]
  rw [hmem', hmem]
  simp only [hothers]

/-- Some patterns have no alphabet just when one of them cannot be split into tokens, and the first
such is reported. Over the alphabet that they have, they are refused only for how their tokens stand
together; if all can be read, it is made up of the symbols of what they are read as. It does not
depend on the order of the patterns, nor on their repetition. -/
theorem ofPatterns_exact (patterns : List (List Char)) :
    ((∃ e, ofPatterns patterns = .error e) ↔
      ∃ pattern ∈ patterns, ∃ fault, Token.scan pattern = .error fault) ∧
    (∀ e, ofPatterns patterns = .error e ↔
      ∃ before pattern after fault, patterns = before ++ pattern :: after ∧
        (∀ p ∈ before, ∃ tokens, Token.scan p = .ok tokens) ∧
        Token.scan pattern = .error fault ∧ { fault with pattern } = e) ∧
    ∀ alphabet, ofPatterns patterns = .ok alphabet →
      (∀ pattern ∈ patterns, ∀ e, Regex.parse pattern alphabet = .error e → e.cause.Structural) ∧
      (∀ trees, patterns.mapM (Regex.parse · alphabet) = .ok trees →
        ∀ c, c ∈ alphabet ↔ ∃ r ∈ trees, c ∈ r.symbols) ∧
      ∀ others : List (List Char), (∀ p, p ∈ others ↔ p ∈ patterns) →
        ofPatterns others = .ok alphabet := by
  refine ⟨exists_ofPatterns_error_iff, fun e => ofPatterns_eq_error_iff, fun alphabet h => ?_⟩
  refine ⟨fun pattern hpattern e => structural_of_ofPatterns h hpattern, ?_, ?_⟩
  · exact fun trees htrees c => mem_ofPatterns_iff h htrees
  · exact fun others => ofPatterns_congr h

/-- The alphabet of a class under a quantifier and a group with an escaped symbol, also when they
come in another order and one of them twice; and a group that is left open over its alphabet. -/
theorem ofPatterns_exact_class_group :
    ∃ trees, ["[b-d]?".toList, "(\\*|a)".toList].mapM
        (Regex.parse · (.ofList "*abcd".toList)) = .ok trees ∧
      (∀ c, c ∈ (SortedSet.ofList "*abcd".toList : Alphabet) ↔ ∃ r ∈ trees, c ∈ r.symbols) ∧
      ofPatterns ["(\\*|a)".toList, "[b-d]?".toList, "(\\*|a)".toList] =
        .ok (.ofList "*abcd".toList) ∧
      ∃ e, Regex.parse "(a".toList (.ofList ['a']) = .error e ∧ e.cause.Structural := by
  have halphabet : ofPatterns ["[b-d]?".toList, "(\\*|a)".toList] =
      .ok (.ofList "*abcd".toList) := by decide
  obtain ⟨-, hunion, hcongr⟩ := (ofPatterns_exact _).2.2 _ halphabet
  have hrefused : Regex.parse "(a".toList (.ofList ['a']) =
      .error ⟨⟨0, .unclosedGroup⟩, "(a".toList⟩ := by decide +kernel
  have htrees : ["[b-d]?".toList, "(\\*|a)".toList].mapM
      (Regex.parse · (.ofList "*abcd".toList)) =
      .ok [.alt (.alt (.alt (.symbol 'b') (.symbol 'c')) (.symbol 'd')) .epsilon,
        .alt (.symbol '*') (.symbol 'a')] := by decide +kernel
  exact ⟨_, htrees, hunion _ htrees, hcongr _ (by simp [or_comm]), _, hrefused,
    ((ofPatterns_exact ["(a".toList]).2.2 _ (by decide)).1 _ (List.mem_singleton.2 rfl) _ hrefused⟩

end Alphabet

end RegexEquiv
