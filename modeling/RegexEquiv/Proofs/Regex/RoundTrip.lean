import RegexEquiv.Proofs.Regex.Reading
import RegexEquiv.Proofs.Regex.Symbols
import RegexEquiv.Proofs.Token.Spelling

/-!
# Reading what has been printed

The printer and the reader meet at the grammar. What is printed at a place is the text of a phrase
that fits the place: of an expression where it stands free, of a term in a chain of factors, of a
factor under a quantifier (`Regex.phrases`); and the phrase has the language of the tree that is
printed (`Regex.writes_printAt`). The reader follows the grammar, so it reads the text as a tree of
the same language, unless the text nests too deep, and then it refuses the text for that
(`Regex.parse_print`).
-/

namespace RegexEquiv

open Token

namespace Grammar

/-! ## Joining phrases -/

/-- The factors of a term and then those of another. -/
def Term.append (t : Term) : Term → Term
  | .blank => t
  | .juxtaposed earlier last => .juxtaposed (t.append earlier) last

/-- The alternatives of an expression and then those of another. -/
def Expression.append (x : Expression) : Expression → Expression
  | .single only => .alternated x only
  | .alternated earlier last => .alternated (x.append earlier) last

variable {alphabet : Alphabet}

theorem Term.kinds_append (t u : Term) : (t.append u).kinds = t.kinds ++ u.kinds := by
  fun_induction Term.append t u with
  | case1 => exact (List.append_nil _).symm
  | case2 earlier last ih => rw [Term.kinds, ih, Term.kinds, List.append_assoc]

theorem Term.depth_append (t u : Term) : (t.append u).depth = max t.depth u.depth := by
  fun_induction Term.append t u with
  | case1 => exact (Nat.max_zero _).symm
  | case2 earlier last ih => rw [Term.depth, ih, Term.depth, Nat.max_assoc]

theorem Term.language_append (t u : Term) :
    (t.append u).language alphabet = t.language alphabet * u.language alphabet := by
  fun_induction Term.append t u with
  | case1 => exact (mul_one _).symm
  | case2 earlier last ih => rw [Term.language, ih, Term.language, mul_assoc]

theorem Term.trees_append (b : Builder) (t u : Term) :
    (t.append u).trees b alphabet = u.trees b alphabet ++ t.trees b alphabet := by
  fun_induction Term.append t u with
  | case1 => rfl
  | case2 earlier last ih => rw [Term.trees, ih, Term.trees, List.cons_append]

theorem Expression.kinds_append (x y : Expression) :
    (x.append y).kinds = x.kinds ++ .bar :: y.kinds := by
  fun_induction Expression.append x y with
  | case1 only => rfl
  | case2 earlier last ih =>
      rw [Expression.kinds, ih, Expression.kinds, List.append_assoc, List.cons_append]

theorem Expression.depth_append (x y : Expression) :
    (x.append y).depth = max x.depth y.depth := by
  fun_induction Expression.append x y with
  | case1 only => rfl
  | case2 earlier last ih => rw [Expression.depth, ih, Expression.depth, Nat.max_assoc]

theorem Expression.language_append (x y : Expression) :
    (x.append y).language alphabet = x.language alphabet + y.language alphabet := by
  fun_induction Expression.append x y with
  | case1 only => rfl
  | case2 earlier last ih => rw [Expression.language, ih, Expression.language, add_assoc]

theorem Expression.trees_append (b : Builder) (x y : Expression) :
    (x.append y).trees b alphabet = y.trees b alphabet ++ x.trees b alphabet := by
  fun_induction Expression.append x y with
  | case1 only => rfl
  | case2 earlier last ih => rw [Expression.trees, ih, Expression.trees, List.cons_append]

end Grammar

/-- The character that writes a quantifier. -/
def Quantifier.mark : Quantifier → Char
  | star => '*'
  | plus => '+'
  | optional => '?'

namespace Regex

open Grammar

variable {alphabet : Alphabet}

/-! ## Texts of phrases -/

/-- `Written alphabet text kinds depth` says that a text spells tokens over an alphabet and nests as
deep as given. -/
structure Written (alphabet : Alphabet) (text : List Char) (kinds : List TokenKind)
    (depth : Nat) : Prop where
  spells : Spells text kinds
  nests : Nests text depth
  symbols : ∀ kind ∈ kinds, kind.Over alphabet

section Written

variable {text more : List Char} {kinds others : List TokenKind} {d e : Nat}

theorem written_nil : Written alphabet [] [] 0 := ⟨spells_nil, nests_nil, nofun⟩

theorem Written.append (h : Written alphabet text kinds d) (h' : Written alphabet more others e) :
    Written alphabet (text ++ more) (kinds ++ others) (max d e) where
  spells := h.spells.append h'.spells
  nests := h.nests.append h'.nests
  symbols := List.forall_mem_append.2 ⟨h.symbols, h'.symbols⟩

theorem Written.group (h : Written alphabet text kinds d) :
    Written alphabet ('(' :: text ++ [')']) (.opening :: kinds ++ [.closing]) (d + 1) where
  spells := h.spells.group
  nests := h.nests.group
  symbols := List.forall_mem_append.2
    ⟨List.forall_mem_cons.2 ⟨nofun, h.symbols⟩, List.forall_mem_singleton.2 nofun⟩

theorem written_brackets : Written alphabet ['[', ']'] [.oneOf []] 0 where
  spells := spells_brackets
  nests := nests_brackets
  symbols := List.forall_mem_singleton.2 nofun

theorem written_symbol {c : Char} (hc : c ∈ alphabet) :
    Written alphabet (printSymbol c) [.symbol c] 0 where
  spells := spells_printSymbol c
  nests := nests_printSymbol c
  symbols := List.forall_mem_singleton.2 (List.forall_mem_singleton.2 hc)

theorem written_bare {c : Char} (hc : c ∉ delimiters) (hover : (Scan.kindOf c).Over alphabet) :
    Written alphabet [c] [Scan.kindOf c] 0 where
  spells := spells_bare hc
  nests := nests_bare hc
  symbols := List.forall_mem_singleton.2 hover

theorem written_mark (q : Quantifier) : Written alphabet [q.mark] [.quantifier q] 0 := by
  cases q with
  | star | plus | optional => exact written_bare (by decide) nofun

end Written

/-- `Writes alphabet place text l` says that a text is that of a phrase that fits a place, and the
language of the phrase is `l`. -/
def Place.Writes (alphabet : Alphabet) : Place → List Char → Language Char → Prop
  | .free, text, l =>
      ∃ x : Expression, Written alphabet text x.kinds x.depth ∧ x.language alphabet = l
  | .factor, text, l =>
      ∃ t : Term, Written alphabet text t.kinds t.depth ∧ t.language alphabet = l
  | .operand, text, l =>
      ∃ f : Factor, Written alphabet text f.kinds f.depth ∧ f.language alphabet = l

/-- A phrase for each place. -/
structure Phrases where
  free : Expression
  factor : Term
  operand : Factor

namespace Phrases

/-- A factor fits every place. -/
def ofFactor (f : Factor) : Phrases := ⟨.single (.juxtaposed .blank f), .juxtaposed .blank f, f⟩

/-- Factors in a chain are enclosed under a quantifier. -/
def ofTerm (t : Term) : Phrases := ⟨.single t, t, .group (.single t)⟩

/-- Alternatives are enclosed wherever they do not stand free. -/
def ofExpression (x : Expression) : Phrases := ⟨x, .juxtaposed .blank (.group x), .group x⟩

/-- The tokens of the phrase for a place. -/
def kinds (p : Phrases) : Place → List TokenKind
  | .free => p.free.kinds
  | .factor => p.factor.kinds
  | .operand => p.operand.kinds

/-- The depth of the phrase for a place. -/
def depth (p : Phrases) : Place → Nat
  | .free => p.free.depth
  | .factor => p.factor.depth
  | .operand => p.operand.depth

/-- The language of the phrase for a place. -/
def language (alphabet : Alphabet) (p : Phrases) : Place → Language Char
  | .free => p.free.language alphabet
  | .factor => p.factor.language alphabet
  | .operand => p.operand.language alphabet

end Phrases

/-- The phrases that a tree is printed as. -/
def phrases : Regex → Phrases
  | empty => .ofFactor (.oneOf [])
  | epsilon => .ofFactor (.group (.single .blank))
  | symbol c => .ofFactor (.symbol c)
  | cat left right => .ofTerm (left.phrases.factor.append right.phrases.factor)
  | alt left right => .ofExpression (left.phrases.free.append right.phrases.free)
  | star inner => .ofFactor (.quantified inner.phrases.operand .star)
  | plus inner => .ofFactor (.quantified inner.phrases.operand .plus)

section Phrases

variable {text more : List Char} {f : Factor} {t u : Term} {x y : Expression}

theorem Written.ofFactor (h : Written alphabet text f.kinds f.depth) (place : Place) :
    Written alphabet text ((Phrases.ofFactor f).kinds place)
      ((Phrases.ofFactor f).depth place) := by
  have hterm : Written alphabet text (Term.juxtaposed .blank f).kinds
      (Term.juxtaposed .blank f).depth := by
    rw [Term.kinds, Term.depth, Term.kinds, Term.depth, List.nil_append, Nat.zero_max]
    exact h
  cases place with
  | free | factor => exact hterm
  | operand => exact h

theorem Written.ofTerm (h : Written alphabet text t.kinds t.depth) (place : Place) :
    Written alphabet (enclose (place == .operand) text) ((Phrases.ofTerm t).kinds place)
      ((Phrases.ofTerm t).depth place) := by
  cases place with
  | free | factor => exact h
  | operand => exact h.group

theorem Written.ofExpression (h : Written alphabet text x.kinds x.depth) (place : Place) :
    Written alphabet (enclose (place != .free) text) ((Phrases.ofExpression x).kinds place)
      ((Phrases.ofExpression x).depth place) := by
  have hgroup : Written alphabet ('(' :: text ++ [')']) (Factor.group x).kinds
      (Factor.group x).depth := h.group
  cases place with
  | free => exact h
  | factor => exact hgroup.ofFactor .factor
  | operand => exact hgroup

theorem Written.cat (h : Written alphabet text t.kinds t.depth)
    (h' : Written alphabet more u.kinds u.depth) :
    Written alphabet (text ++ more) (t.append u).kinds (t.append u).depth := by
  rw [t.kinds_append, t.depth_append]
  exact h.append h'

theorem Written.alt (h : Written alphabet text x.kinds x.depth)
    (h' : Written alphabet more y.kinds y.depth) :
    Written alphabet (text ++ '|' :: more) (x.append y).kinds (x.append y).depth := by
  have hbar : Written alphabet ['|'] [.bar] 0 := written_bare (by decide) nofun
  rw [x.kinds_append, x.depth_append, ← Nat.zero_max y.depth]
  exact h.append (hbar.append h')

theorem Written.quantified (h : Written alphabet text f.kinds f.depth) (q : Quantifier) :
    Written alphabet (text ++ [q.mark]) (Factor.quantified f q).kinds
      (Factor.quantified f q).depth := by
  have hwritten := h.append (written_mark q)
  rwa [Nat.max_zero] at hwritten

/-- What is printed at a place is the text of the phrase for the place. -/
theorem written_printAt {r : Regex} (hr : r.Over alphabet) (place : Place) :
    Written alphabet (printAt place r) (r.phrases.kinds place) (r.phrases.depth place) := by
  induction r generalizing place with
  | empty =>
      have hclass : Written alphabet ['[', ']'] (Factor.oneOf []).kinds (Factor.oneOf []).depth :=
        written_brackets
      rw [printAt]
      exact hclass.ofFactor place
  | epsilon =>
      have hgroup : Written alphabet ['(', ')'] (Factor.group (.single .blank)).kinds
          (Factor.group (.single .blank)).depth := written_nil.group
      rw [printAt]
      exact hgroup.ofFactor place
  | symbol c =>
      have hsymbol : Written alphabet (printSymbol c) (Factor.symbol c).kinds
          (Factor.symbol c).depth := written_symbol (hr c (List.mem_singleton.2 rfl))
      rw [printAt]
      exact hsymbol.ofFactor place
  | cat left right ihl ihr =>
      have hleft := ihl (fun c hc => hr c (List.mem_append_left _ hc)) .factor
      have hright := ihr (fun c hc => hr c (List.mem_append_right _ hc)) .factor
      rw [printAt]
      exact (Written.cat hleft hright).ofTerm place
  | alt left right ihl ihr =>
      have hleft := ihl (fun c hc => hr c (List.mem_append_left _ hc)) .free
      have hright := ihr (fun c hc => hr c (List.mem_append_right _ hc)) .free
      rw [printAt]
      exact (Written.alt hleft hright).ofExpression place
  | star inner ih =>
      have hinner := ih hr .operand
      rw [printAt]
      exact (Written.quantified hinner .star).ofFactor place
  | plus inner ih =>
      have hinner := ih hr .operand
      rw [printAt]
      exact (Written.quantified hinner .plus).ofFactor place

theorem Phrases.language_ofFactor (f : Factor) (place : Place) :
    (ofFactor f).language alphabet place = f.language alphabet := by
  cases place with
  | free | factor => exact one_mul _
  | operand => rfl

theorem Phrases.language_ofTerm (t : Term) (place : Place) :
    (ofTerm t).language alphabet place = t.language alphabet := by
  cases place with
  | free | factor | operand => rfl

theorem Phrases.language_ofExpression (x : Expression) (place : Place) :
    (ofExpression x).language alphabet place = x.language alphabet := by
  cases place with
  | factor => exact one_mul _
  | free | operand => rfl

/-- The phrases of a tree have its language. -/
theorem language_phrases (r : Regex) (place : Place) :
    r.phrases.language alphabet place = r.language := by
  induction r generalizing place with
  | empty =>
      rw [phrases, Phrases.language_ofFactor, language_empty]
      exact Language.ext fun w => iff_of_false (fun h => by obtain ⟨m, hm, -⟩ := h; cases hm) id
  | epsilon =>
      rw [phrases, Phrases.language_ofFactor, language_epsilon]
      rfl
  | symbol c =>
      rw [phrases, Phrases.language_ofFactor, language_symbol]
      rfl
  | cat left right ihl ihr =>
      rw [phrases, Phrases.language_ofTerm, Term.language_append, language_cat]
      exact congrArg₂ (· * ·) (ihl .factor) (ihr .factor)
  | alt left right ihl ihr =>
      rw [phrases, Phrases.language_ofExpression, Expression.language_append, language_alt]
      exact congrArg₂ (· + ·) (ihl .free) (ihr .free)
  | star inner ih =>
      rw [phrases, Phrases.language_ofFactor, language_star]
      exact congrArg (Quantifier.language .star) (ih .operand)
  | plus inner ih =>
      rw [phrases, Phrases.language_ofFactor, language_plus]
      exact congrArg (Quantifier.language .plus) (ih .operand)

/-- What is printed at a place fits the place and has the language of the tree. -/
theorem writes_printAt {r : Regex} (hr : r.Over alphabet) (place : Place) :
    place.Writes alphabet (printAt place r) r.language := by
  cases place with
  | free => exact ⟨r.phrases.free, written_printAt hr .free, language_phrases r .free⟩
  | factor => exact ⟨r.phrases.factor, written_printAt hr .factor, language_phrases r .factor⟩
  | operand => exact ⟨r.phrases.operand, written_printAt hr .operand, language_phrases r .operand⟩

end Phrases

/-! ## The round trip -/

/-- Over an alphabet with all of its symbols, a tree that is printed and read again keeps its
language, unless more parentheses are open at once in the text than are allowed. Then the text is
refused for that. -/
theorem parse_print {r : Regex} (hr : r.Over alphabet) :
    (mostOpen 0 r.print ≤ maxNesting →
      ∃ r', parse r.print alphabet = .ok r' ∧ r'.language = r.language) ∧
    (maxNesting < mostOpen 0 r.print →
      ∃ position, parse r.print alphabet = .error ⟨⟨position, .nestingTooDeep⟩, r.print⟩) := by
  obtain ⟨x, hwritten, hlanguage⟩ : Place.Writes alphabet .free r.print r.language :=
    writes_printAt hr .free
  obtain ⟨tokens, hscan, hkinds⟩ := hwritten.spells.scan
  have hover : ∀ t ∈ tokens, t.kind.Over alphabet := fun t ht =>
    hwritten.symbols t.kind (hkinds ▸ List.mem_map_of_mem ht)
  rw [hwritten.nests.mostOpen_eq]
  constructor
  · intro hdepth
    have hread := ofTokens_eq_ok_iff.2 ⟨x, hkinds, hover, hdepth, rfl⟩
    have hparse := parse_eq_ok_iff.2 ⟨tokens, hscan, hread⟩
    exact ⟨x.tree .compact alphabet, hparse, (x.language_tree .compact alphabet).trans hlanguage⟩
  · intro hdeep
    obtain ⟨position, hposition⟩ := ofTokens_of_tooDeep hkinds hover hdeep
    exact ⟨position, by rw [parse_of_scan hscan, hposition]; rfl⟩

/-- The text `(\(()|[])*` of a tree with a parenthesis as its symbol is read as a tree of the same
language. A tree with as many repetitions around `()` as groups may be open is printed too deep. -/
theorem parse_print_reserved :
    (star (alt (cat (symbol '(') epsilon) empty)).print = "(\\(()|[])*".toList ∧
      (∃ r', parse "(\\(()|[])*".toList (.ofList ['(']) = .ok r' ∧
        r'.language = (star (alt (cat (symbol '(') epsilon) empty)).language) ∧
      ∃ position, parse ((fun r => star (alt r empty))^[maxNesting] epsilon).print
        (.ofList ['(']) = .error ⟨⟨position, .nestingTooDeep⟩,
          ((fun r => star (alt r empty))^[maxNesting] epsilon).print⟩ := by
  have hover : (star (alt (cat (symbol '(') epsilon) empty)).Over (.ofList ['(']) := by
    show ∀ c ∈ ['('], c ∈ (.ofList ['('] : Alphabet)
    exact List.forall_mem_singleton.2 (by decide +kernel)
  have htext : (star (alt (cat (symbol '(') epsilon) empty)).print = "(\\(()|[])*".toList := by
    decide +kernel
  have hfits : mostOpen 0 (star (alt (cat (symbol '(') epsilon) empty)).print ≤ maxNesting := by
    decide +kernel
  have hbar : Nests ['|'] 0 := nests_bare (by decide)
  have hstar : Nests ['*'] 0 := nests_bare (by decide)
  -- The second text is too long to be evaluated; its depth is found by induction.
  have hstack (n : Nat) : ((fun r => star (alt r empty))^[n] epsilon).Over (.ofList ['(']) ∧
      Nests ((fun r => star (alt r empty))^[n] epsilon).print (n + 1) := by
    induction n with
    | zero => exact ⟨over_epsilon, nests_nil.group⟩
    | succ n ih =>
        obtain ⟨hn, hnests⟩ := ih
        have hround := (hnests.append (hbar.append nests_brackets)).group.append hstar
        have hdepth : max (max (n + 1) (max 0 0) + 1) 0 = n + 1 + 1 := by omega
        rw [hdepth] at hround
        rw [Function.iterate_succ_apply']
        exact ⟨over_alt _ _ hn over_empty, hround⟩
  have hdeep : maxNesting <
      mostOpen 0 ((fun r => star (alt r empty))^[maxNesting] epsilon).print := by
    rw [(hstack maxNesting).2.mostOpen_eq]
    exact Nat.lt_succ_self maxNesting
  have hread := (parse_print hover).1 hfits
  rw [htext] at hread
  exact ⟨htext, hread, (parse_print (hstack maxNesting).1).2 hdeep⟩

end Regex

end RegexEquiv
