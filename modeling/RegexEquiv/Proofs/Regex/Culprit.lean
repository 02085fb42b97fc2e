import RegexEquiv.Proofs.Regex.Outcome
import RegexEquiv.Proofs.Token.Writing
import RegexEquiv.Text.Colour

/-!
# The culprit of a fault

A fault names a position of its pattern, and what is at fault stands there: the parenthesis, the
quantifier, the bracket, the last backslash, the lower end of the range, or the symbol
(`Fault.Culprit`). This holds of the faults of the reader of characters (`Token.culprit_of_scan`)
and of those of the reader of tokens (`Regex.culprit_of_ofTokens`). So a syntax error shows its
pattern with one character of it marked: `SyntaxError.error_pinpoints`.
-/

namespace RegexEquiv

open Text (Stands)

/-- `SymbolAt pattern c position` says that a symbol is written at a position: bare, behind a
backslash, or as one of a range in a class. -/
inductive SymbolAt (pattern : List Char) (c : Char) (position : Nat) : Prop where
  | glyph (g : Glyph) : g.char = c → g.Written pattern position → SymbolAt pattern c position
  | range (lo hi : Glyph) (tokens : List Token) (members : List ClassMember) (opened : Nat) :
      Stands (lo.text ++ '-' :: hi.text) pattern position → lo.char ≤ c → c ≤ hi.char →
      Token.scan pattern = .ok tokens → ⟨.oneOf members, opened⟩ ∈ tokens →
      ⟨c, position⟩ ∈ members → opened < position → SymbolAt pattern c position

/-- `fault.Culprit pattern alphabet` says that what a fault names stands at its position. -/
def Fault.Culprit (fault : Fault) (pattern : List Char) (alphabet : Alphabet) : Prop :=
  match fault.cause with
  | .unclosedGroup | .nestingTooDeep => Stands ['('] pattern fault.position
  | .unopenedGroup => Stands [')'] pattern fault.position
  | .missingOperand => ∃ c ∈ ['*', '+', '?'], Stands [c] pattern fault.position
  | .unclosedClass => Stands ['['] pattern fault.position
  | .danglingEscape => ∃ before, before ++ ['\\'] = pattern ∧ before.length = fault.position
  | .invalidRange lo hi => hi < lo ∧ ∃ g : Glyph, g.char = lo ∧ g.Written pattern fault.position
  | .unknownSymbol c => c ∉ alphabet ∧ SymbolAt pattern c fault.position

variable {pattern : List Char} {alphabet : Alphabet} {fault : Fault}

/-- The culprit is a character of the pattern. -/
theorem Fault.Culprit.lt_length (h : fault.Culprit pattern alphabet) :
    fault.position < pattern.length := by
  obtain ⟨position, cause⟩ := fault
  cases cause with
  | unclosedGroup | nestingTooDeep | unopenedGroup | unclosedClass =>
      exact Text.Stands.lt_length h (List.cons_ne_nil _ _)
  | missingOperand =>
      obtain ⟨c, -, hstands⟩ := h
      exact hstands.lt_length (List.cons_ne_nil _ _)
  | danglingEscape =>
      obtain ⟨before, rfl, rfl⟩ := h
      rw [List.length_append]
      exact Nat.lt_succ_self _
  | invalidRange lo hi =>
      obtain ⟨-, g, -, hg⟩ := h
      exact hg.stands.lt_length g.text_ne_nil
  | unknownSymbol c =>
      obtain ⟨-, hsymbol⟩ := h
      cases hsymbol with
      | glyph g _ hg => exact hg.stands.lt_length g.text_ne_nil
      | range lo hi _ _ _ hstands => exact hstands.left.lt_length lo.text_ne_nil

namespace Token

/-- In a text that is not split into tokens, the culprit stands where the fault says. -/
theorem culprit_of_scan (alphabet : Alphabet) (h : Token.scan pattern = .error fault) :
    fault.Culprit pattern alphabet := by
  unfold Token.scan at h
  cases hscan : scanFrom .start pattern with
  | error fault' =>
      rw [hscan] at h
      obtain rfl := Except.error.inj h
      obtain ⟨front, c, back, mid, rfl, hmid, hstep⟩ := Except.foldlM_eq_error_iff.1 hscan
      obtain ⟨start, glyph, hends, hread⟩ := Scan.step_eq_error_iff.1 hstep
      obtain ⟨done, hdone, -, hwritten, -, -⟩ := (follows_of_scanFrom hmid).ends hends
      obtain ⟨opened, members, m, hyphen, hclass, -, hrange⟩ := Scan.read_eq_error_iff.1 hread
      obtain ⟨hlt, rfl⟩ := Scan.range_eq_error_iff.1 hrange
      have hmode := hwritten.mode
      rw [show mid.mode = .inClass opened members (.hyphen m hyphen) from hclass] at hmode
      cases hmode with
      | inClass _ _ hheld =>
          cases hheld with
          | @hyphen before g hproper _ =>
              refine ⟨hlt, g, rfl, ?_, hproper⟩
              have htext : front ++ c :: back =
                  before ++ g.text ++ ('-' :: glyph.text ++ back) := by
                rw [List.append_cons, ← hdone]
                simp
              exact ⟨before, _, htext.symm, rfl⟩
  | ok final =>
      rw [hscan] at h
      replace h : final.finish = .error fault := h
      cases follows_of_scanFrom hscan with
      | settled _ hescape hwritten =>
          obtain ⟨start, hescape', -⟩ | ⟨-, opened, members, pending, hclass, rfl⟩ :=
            Scan.finish_eq_error_iff.1 h
          · rw [hescape'] at hescape
            cases hescape
          · have hmode := hwritten.mode
            rw [hclass] at hmode
            cases hmode with
            | inClass hstands => exact hstands
      | @waiting text _ hescape =>
          obtain ⟨start, hescape', rfl⟩ | ⟨hescape', -⟩ := Scan.finish_eq_error_iff.1 h
          · rw [hescape'] at hescape
            obtain rfl := Option.some.inj hescape
            exact ⟨text, rfl, rfl⟩
          · rw [hescape'] at hescape
            cases hescape

end Token

namespace Regex

variable {tokens before : List Token} {token : Token}

/-! ## Tokens -/

/-- What is wrong with a token that is written in a pattern is wrong where it stands. -/
theorem culprit_of_offence? (hscan : Token.scan pattern = .ok tokens) (htoken : token ∈ tokens)
    (h : offence? alphabet before token = some fault) : fault.Culprit pattern alphabet := by
  have hwritten := Token.written_of_scan hscan token htoken
  cases hwritten with
  | @oneOf _ members position hstands hmembers =>
      simp only [offence?, Option.map_eq_some_iff] at h
      obtain ⟨m, hm, rfl⟩ := h
      have hunknown : m.symbol ∉ alphabet := by simpa using List.find?_some hm
      have hmem := List.mem_of_find?_eq_some hm
      obtain ⟨hlt, hwritten⟩ := hmembers m hmem
      refine ⟨hunknown, ?_⟩
      cases hwritten with
      | glyph g hchar hg => exact .glyph g hchar hg
      | range lo hi hlo hhi hstands hle hge =>
          exact .range lo hi tokens members position hstands hle hge hscan htoken hmem hlt
  | @glyph _ position g _ hg =>
      have hstands := hg.stands
      have hkind := g.of_kind
      generalize g.kind = kind at h hkind
      cases kind with
      | oneOf => exact hkind.elim
      | wildcard | bar => cases h
      | symbol c =>
          simp only [offence?] at h
          split at h
          · cases h
          · rename_i hunknown
            obtain rfl := Option.some.inj h
            exact ⟨hunknown, .glyph g hkind hg⟩
      | quantifier q =>
          simp only [offence?] at h
          split at h
          · obtain rfl := Option.some.inj h
            obtain ⟨c, hc, rfl⟩ := hkind
            exact ⟨c, hc, hstands⟩
          · cases h
      | opening =>
          simp only [offence?] at h
          split at h
          · obtain rfl := Option.some.inj h
            obtain rfl := hkind
            exact hstands
          · cases h
      | closing =>
          simp only [offence?] at h
          split at h
          · obtain rfl := Option.some.inj h
            obtain rfl := hkind
            exact hstands
          · cases h

/-- If the tokens of a pattern are refused, the culprit stands where the fault says. -/
theorem culprit_of_ofTokens (hscan : Token.scan pattern = .ok tokens)
    (h : ofTokens alphabet tokens = .error fault) : fault.Culprit pattern alphabet := by
  have houtcome : Outcome alphabet tokens (.error fault) :=
    outcome_iff.2 (congrArg (Except.map _) h)
  cases houtcome with
  | offence before token after _ htokens _ hoffence =>
      have htoken : token ∈ tokens := htokens ▸ List.mem_append_right _ List.mem_cons_self
      exact culprit_of_offence? hscan htoken hoffence
  | unclosed before token after _ htokens hopening _ =>
      have htoken : token ∈ tokens := htokens ▸ List.mem_append_right _ List.mem_cons_self
      exact (Token.written_of_scan hscan token htoken).stands_opening hopening

end Regex

namespace SyntaxError

/-! ## Syntax errors -/

/-- `e.Pinpoints pattern alphabet` says that a syntax error is about a pattern and that its culprit
stands in the pattern where the error says. The pattern is shown as it is when colours are off; when
they are on, the character of the culprit is painted red and nothing else changes. -/
structure Pinpoints (e : SyntaxError) (pattern : List Char) (alphabet : Alphabet) : Prop where
  pattern_eq : e.pattern = pattern
  lt_length : e.position < pattern.length
  culprit : e.toFault.Culprit pattern alphabet
  plain : e.highlight (Text.Paint.red.apply false) = pattern
  painted : ∃ before c after, before ++ c :: after = pattern ∧ before.length = e.position ∧
    e.highlight (Text.Paint.red.apply true) =
      before ++ "\x1b[31m".toList ++ c :: "\x1b[0m".toList ++ after

/-- A position inside a pattern is that of a character between two parts of it. -/
theorem exists_split {position : Nat} (h : position < pattern.length) :
    ∃ before c after, before ++ c :: after = pattern ∧ before.length = position := by
  refine ⟨pattern.take position, pattern[position], pattern.drop (position + 1), ?_, ?_⟩
  · rw [← List.drop_eq_getElem_cons h, List.take_append_drop]
  · exact List.length_take_of_le h.le

/-- A fault inside a pattern marks one character of it. -/
theorem highlight_eq {before after : List Char} {c : Char} (mark : List Char → List Char)
    (cause : FaultCause) :
    highlight mark ⟨⟨before.length, cause⟩, before ++ c :: after⟩ =
      before ++ mark [c] ++ after := by
  rw [highlight, List.drop_left' rfl]
  simp only [List.take_left' rfl]

/-- A fault whose culprit stands in a pattern makes a syntax error that points at it. -/
theorem pinpoints_of_culprit (h : fault.Culprit pattern alphabet) :
    Pinpoints { fault with pattern } pattern alphabet where
  pattern_eq := rfl
  lt_length := h.lt_length
  culprit := h
  plain := highlight_id h.lt_length
  painted := by
    obtain ⟨position, cause⟩ := fault
    have hlt : position < pattern.length := h.lt_length
    obtain ⟨before, c, after, rfl, rfl⟩ := exists_split hlt
    refine ⟨before, c, after, rfl, rfl, ?_⟩
    rw [highlight_eq]
    simp [Text.Paint.apply, Text.Paint.code]

/-- If a pattern cannot be read over an alphabet, the syntax error points at its culprit. -/
theorem pinpoints_of_parse {e : SyntaxError} (h : Regex.parse pattern alphabet = .error e) :
    Pinpoints e pattern alphabet := by
  obtain ⟨fault, hfault, rfl⟩ := Except.mapError_eq_error_iff.1 h
  refine pinpoints_of_culprit ?_
  cases hscan : Token.scan pattern with
  | error fault' =>
      rw [hscan] at hfault
      obtain rfl := Except.error.inj hfault
      exact Token.culprit_of_scan alphabet hscan
  | ok tokens =>
      rw [hscan] at hfault
      exact Regex.culprit_of_ofTokens hscan hfault

/-- Whenever a pattern cannot be split into tokens or cannot be read over an alphabet, the syntax
error points at its culprit. -/
theorem error_pinpoints (pattern : List Char) (alphabet : Alphabet) :
    (∀ fault, Token.scan pattern = .error fault →
        Pinpoints { fault with pattern } pattern alphabet) ∧
      ∀ e, Regex.parse pattern alphabet = .error e → Pinpoints e pattern alphabet := by
  refine ⟨fun fault h => ?_, fun e h => ?_⟩
  · exact pinpoints_of_culprit (Token.culprit_of_scan alphabet h)
  · exact pinpoints_of_parse h

/-- The range from `a` to `c` has a symbol outside the alphabet, so its `a` is at fault, and the
range from `c` to `a` is at fault whatever the alphabet. -/
theorem error_pinpoints_ranges :
    Pinpoints ⟨⟨4, .unknownSymbol 'c'⟩, "(\\*[a-c]".toList⟩ "(\\*[a-c]".toList
        (.ofList "*ab".toList) ∧
      Pinpoints ⟨⟨2, .invalidRange 'c' 'a'⟩, "x[\\c-a]".toList⟩ "x[\\c-a]".toList .empty :=
  ⟨(error_pinpoints _ _).2 _ (by decide +kernel), (error_pinpoints _ _).1 _ (by decide +kernel)⟩

end SyntaxError

end RegexEquiv
