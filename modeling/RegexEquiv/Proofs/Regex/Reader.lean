import RegexEquiv.Proofs.Except
import RegexEquiv.Regex.Parser

/-!
# A reader with a stack

A pattern is read by recursion on its groups. What a token does is easier to state for a reader that
keeps the groups around the one at hand on a stack and takes in one token after another
(`Reader.step`), since a step does not hang on the tokens behind it. Each function of the recursion
does to a pattern what the reader does with the same tokens (`Reader.read_operand`,
`Reader.read_factors`, `Reader.read_alternatives`): the stack holds the calls that wait for a
closing parenthesis, and its height is the depth that they count. So both read a pattern alike:
`Regex.ofTokens_eq`.
-/

namespace RegexEquiv

/-- What has been read of a group, last first: its finished alternatives, and the factors of the
alternative at hand. -/
structure Group where
  alternatives : List Regex
  factors : List Regex
deriving DecidableEq, Repr

namespace Group

/-- A group of which nothing has been read. -/
def start : Group := ⟨[], []⟩

/-- The group after one more factor. -/
def push (group : Group) (r : Regex) : Group := { group with factors := r :: group.factors }

/-- The alternative at hand, as it stands. -/
def alternative (group : Group) : Regex :=
  .balanced .cat .epsilon group.factors.reverse

/-- The group after a bar. -/
def endAlternative (group : Group) : Group := ⟨group.alternative :: group.alternatives, []⟩

/-- The expression that a group stands for. -/
def close (group : Group) : Regex :=
  .balanced .alt .epsilon (group.alternative :: group.alternatives).reverse

end Group

/-- The reader of tokens: the group at hand, and the groups around it, innermost first, each with
the offset of the parenthesis that interrupted it. -/
structure Reader where
  current : Group
  enclosing : List (Nat × Group)
deriving DecidableEq, Repr

namespace Reader

/-- The reader at the start of a pattern. -/
def start : Reader := ⟨.start, []⟩

/-- The reader after one more factor of the group at hand. -/
def push (reader : Reader) (r : Regex) : Reader :=
  { reader with current := reader.current.push r }

/-- Takes in a token. -/
def step (alphabet : Alphabet) (reader : Reader) (token : Token) : Except Fault Reader :=
  match token.kind with
  | .symbol c =>
      if c ∈ alphabet then .ok (reader.push (.symbol c))
      else .error ⟨token.position, .unknownSymbol c⟩
  | .oneOf members =>
      match members.find? (·.symbol ∉ alphabet) with
      | some m => .error ⟨m.position, .unknownSymbol m.symbol⟩
      | none => .ok (reader.push (.oneOf (.ofList (members.map (·.symbol)))))
  | .wildcard => .ok (reader.push (.oneOf alphabet))
  | .quantifier q =>
      match reader.current.factors with
      | [] => .error ⟨token.position, .missingOperand⟩
      | r :: rest =>
          .ok { reader with current := { reader.current with factors := q.apply r :: rest } }
  | .bar => .ok { reader with current := reader.current.endAlternative }
  | .opening =>
      if reader.enclosing.length < maxNesting then
        .ok ⟨.start, (token.position, reader.current) :: reader.enclosing⟩
      else .error ⟨token.position, .nestingTooDeep⟩
  | .closing =>
      match reader.enclosing with
      | [] => .error ⟨token.position, .unopenedGroup⟩
      | (_, group) :: rest => .ok ⟨group.push reader.current.close, rest⟩

/-- The expression at the end of the pattern, unless a group is left open. -/
def finish (reader : Reader) : Except Fault Regex :=
  match reader.enclosing with
  | [] => .ok reader.current.close
  | (position, _) :: _ => .error ⟨position, .unclosedGroup⟩

/-- Takes in some tokens. -/
def run (alphabet : Alphabet) (reader : Reader) (tokens : List Token) : Except Fault Reader :=
  tokens.foldlM (Reader.step alphabet) reader

variable {alphabet : Alphabet}

theorem run_append (reader : Reader) (tokens more : List Token) :
    reader.run alphabet (tokens ++ more) =
      reader.run alphabet tokens >>= fun mid => mid.run alphabet more :=
  List.foldlM_append

theorem run_cons (reader : Reader) (token : Token) (more : List Token) :
    reader.run alphabet (token :: more) =
      reader.step alphabet token >>= fun mid => mid.run alphabet more :=
  List.foldlM_cons

/-! ## Reading to the end -/

/-- Takes in the tokens that are left of a pattern. -/
def read (alphabet : Alphabet) (reader : Reader) (tokens : List Token) : Except Fault Regex :=
  reader.run alphabet tokens >>= finish

theorem read_nil (reader : Reader) : reader.read alphabet [] = reader.finish := rfl

theorem read_cons (reader : Reader) (token : Token) (rest : List Token) :
    reader.read alphabet (token :: rest) =
      reader.step alphabet token >>= fun next => next.read alphabet rest := by
  rw [read, run_cons, bind_assoc]
  rfl

/-- Goes on behind a group, whose expression is known, inside the groups around it. The first of
the tokens that are left closes the group. -/
def leave (alphabet : Alphabet) (r : Regex) (enclosing : List (Nat × Group))
    (rest : List Token) : Except Fault Regex :=
  match enclosing, rest with
  | [], [] => .ok r
  | [], token :: _ => .error ⟨token.position, .unopenedGroup⟩
  | (position, _) :: _, [] => .error ⟨position, .unclosedGroup⟩
  | (_, outer) :: enclosing, _ :: rest => read alphabet ⟨outer.push r, enclosing⟩ rest

/-- Nothing of a group is left behind its end but the token that closes it. -/
theorem read_eq_leave (reader : Reader) (rest : List Token)
    (h : ∀ token ∈ rest.head?, token.kind = .closing) :
    reader.read alphabet rest = leave alphabet reader.current.close reader.enclosing rest := by
  obtain ⟨current, enclosing⟩ := reader
  cases rest with
  | nil =>
      rw [read_nil]
      cases enclosing with
      | nil => rfl
      | cons entry enclosing => rfl
  | cons token rest =>
      have hclosing : token.kind = .closing := h token rfl
      rw [read_cons]
      cases enclosing with
      | nil => simp only [step, hclosing, leave]; rfl
      | cons entry enclosing => simp only [step, hclosing, leave]; rfl

end Reader

/-! ## Where reading stops -/

namespace Regex

variable {alphabet : Alphabet} {depth : Nat}

/-- No quantifier is left behind a factor. -/
theorem quantify_rest (r : Regex) (tokens : List Token) :
    ∀ token ∈ (r.quantify tokens).rest.head?, ∀ q, token.kind ≠ .quantifier q := by
  induction tokens generalizing r with
  | nil =>
      intro token htoken
      cases htoken
  | cons token rest ih =>
      rw [quantify]
      split
      · exact ih _
      · rename_i hkind
        rintro _ ⟨⟩ q
        exact hkind q

theorem readFactor_rest {token : Token} {rest : List Token} {p : Parsed Regex rest.length}
    (h : readFactor alphabet depth token rest = .ok p) :
    ∀ token ∈ p.rest.head?, ∀ q, token.kind ≠ .quantifier q := by
  rw [readFactor] at h
  obtain ⟨operand, -, h⟩ := Except.bind_eq_ok_iff.1 h
  obtain rfl := Except.ok.inj h
  exact quantify_rest _ _

/-- Factors are read up to a bar, a closing parenthesis or the end. -/
theorem readFactors_rest {tokens : List Token} {p : Parsed (List Regex) tokens.length}
    (h : readFactors alphabet depth tokens = .ok p) :
    ∀ token ∈ p.rest.head?, token.kind = .bar ∨ token.kind = .closing := by
  cases tokens with
  | nil =>
      rw [readFactors] at h
      obtain rfl := Except.ok.inj h
      intro token htoken
      cases htoken
  | cons token rest =>
      rw [readFactors] at h
      split at h
      · rename_i hkind
        obtain rfl := Except.ok.inj h
        rintro _ ⟨⟩
        exact hkind
      · obtain ⟨factor, -, h⟩ := Except.bind_eq_ok_iff.1 h
        obtain ⟨factors, hfactors, h⟩ := Except.bind_eq_ok_iff.1 h
        obtain rfl := Except.ok.inj h
        have hle := factor.le
        have hstop := readFactors_rest hfactors
        exact hstop
termination_by tokens.length
decreasing_by
  subst_vars
  exact Nat.lt_succ_of_le hle

/-- Alternatives are read up to a closing parenthesis or the end. -/
theorem readAlternatives_rest {tokens : List Token} {p : Parsed (List Regex) tokens.length}
    (h : readAlternatives alphabet depth tokens = .ok p) :
    ∀ token ∈ p.rest.head?, token.kind = .closing := by
  rw [readAlternatives] at h
  obtain ⟨factors, hfactors, h⟩ := Except.bind_eq_ok_iff.1 h
  have hstop := readFactors_rest hfactors
  dsimp only at h
  split at h
  · rename_i more hrest
    have hlt := factors.length_lt hrest
    obtain ⟨alternatives, hmore, h⟩ := Except.bind_eq_ok_iff.1 h
    obtain rfl := Except.ok.inj h
    have hstop := readAlternatives_rest hmore
    exact hstop
  · rename_i hbar
    obtain rfl := Except.ok.inj h
    rintro ⟨kind, position⟩ htoken
    rcases hstop _ htoken with rfl | hclosing
    · obtain ⟨more, hrest⟩ := List.head?_eq_some_iff.1 htoken
      exact absurd hrest (hbar _ _)
    · exact hclosing
termination_by tokens.length

end Regex

/-! ## Recursion and stack -/

namespace Reader

open Regex

variable {alphabet : Alphabet}

/-- The quantifiers behind an operand are applied to it. -/
theorem read_quantify (reader : Reader) (r : Regex) (tokens : List Token) :
    (reader.push r).read alphabet tokens =
      (reader.push (r.quantify tokens).value).read alphabet (r.quantify tokens).rest := by
  induction tokens generalizing r with
  | nil => rfl
  | cons token rest ih =>
      rw [quantify]
      split
      · rename_i q hkind
        rw [read_cons, ← ih]
        simp only [step, hkind, push, Group.push]
        rfl
      · rfl

/-- `reader.Takes tokens` says that the reader stands before an operand: if a quantifier comes
first, it has nothing to apply to. -/
def Takes (reader : Reader) (tokens : List Token) : Prop :=
  ∀ token ∈ tokens.head?, ∀ q, token.kind = .quantifier q → reader.current.factors = []

mutual

/-- A reader that takes in an operand goes on behind it. -/
theorem read_operand (reader : Reader) (hdepth : reader.enclosing.length ≤ maxNesting)
    {token : Token} (rest : List Token) (hbar : token.kind ≠ .bar)
    (hclosing : token.kind ≠ .closing) (htakes : reader.Takes (token :: rest)) :
    reader.read alphabet (token :: rest) =
      readOperand alphabet reader.enclosing.length token rest >>= fun p =>
        (reader.push p.value).read alphabet p.rest := by
  rw [read_cons, readOperand]
  obtain ⟨kind, position⟩ := token
  cases kind with
  | symbol c =>
      by_cases hc : c ∈ alphabet
      · simp only [step, if_pos hc]
        rfl
      · simp only [step, if_neg hc]
        rfl
  | oneOf members =>
      simp only [step]
      cases members.find? (·.symbol ∉ alphabet) with
      | some m => rfl
      | none => rfl
  | wildcard => rfl
  | quantifier q =>
      have hnone : reader.current.factors = [] := htakes _ rfl q rfl
      simp only [step, hnone]
      rfl
  | bar => exact absurd rfl hbar
  | closing => exact absurd rfl hclosing
  | opening =>
      by_cases hfull : reader.enclosing.length = maxNesting
      · simp only [step, hfull, Nat.lt_irrefl, if_true, if_false]
        rfl
      · -- The recursion calls itself where the reader stacks the group that is interrupted.
        have hroom : reader.enclosing.length < maxNesting := Nat.lt_of_le_of_ne hdepth hfull
        simp only [step, if_pos hroom, if_neg hfull]
        show read alphabet ⟨⟨[], []⟩, (position, reader.current) :: reader.enclosing⟩ rest = _
        have hdeeper : ((position, reader.current) :: reader.enclosing).length ≤ maxNesting := hroom
        rw [read_alternatives hdeeper, bind_assoc]
        show readAlternatives alphabet (reader.enclosing.length + 1) rest >>= _ = _
        cases halternatives : readAlternatives alphabet (reader.enclosing.length + 1) rest with
        | error fault => rfl
        | ok group =>
            have hstop := readAlternatives_rest halternatives
            obtain ⟨alternatives, behind, hbehind⟩ := group
            cases behind with
            | nil => rfl
            | cons token more =>
                obtain ⟨kind, position⟩ := token
                obtain rfl : kind = .closing := hstop _ rfl
                rfl
termination_by 4 * rest.length + 3

/-- A reader that takes in a factor goes on behind it. -/
theorem read_factor (reader : Reader) (hdepth : reader.enclosing.length ≤ maxNesting)
    {token : Token} (rest : List Token) (hbar : token.kind ≠ .bar)
    (hclosing : token.kind ≠ .closing) (htakes : reader.Takes (token :: rest)) :
    reader.read alphabet (token :: rest) =
      readFactor alphabet reader.enclosing.length token rest >>= fun p =>
        (reader.push p.value).read alphabet p.rest := by
  rw [read_operand reader hdepth rest hbar hclosing htakes, readFactor, bind_assoc]
  refine bind_congr fun operand => ?_
  rw [read_quantify]
  rfl
termination_by 4 * rest.length + 4

/-- A reader that takes in factors goes on behind them. -/
theorem read_factors (reader : Reader) (hdepth : reader.enclosing.length ≤ maxNesting)
    (tokens : List Token) (htakes : reader.Takes tokens) :
    reader.read alphabet tokens =
      readFactors alphabet reader.enclosing.length tokens >>= fun p =>
        read alphabet ⟨⟨reader.current.alternatives, p.value.reverse ++ reader.current.factors⟩,
          reader.enclosing⟩ p.rest := by
  cases tokens with
  | nil =>
      rw [readFactors]
      rfl
  | cons token rest =>
      rw [readFactors]
      split
      · rfl
      · rename_i hkind
        obtain ⟨hbar, hclosing⟩ := not_or.1 hkind
        rw [read_factor reader hdepth rest hbar hclosing htakes, bind_assoc]
        cases hfactor : readFactor alphabet reader.enclosing.length token rest with
        | error fault => rfl
        | ok factor =>
            have hstop := readFactor_rest hfactor
            have hle := factor.le
            -- Quantifiers are used up with the factor, so the next token is none.
            have htakes : (reader.push factor.value).Takes factor.rest := fun token htoken q hq =>
              absurd hq (hstop token htoken q)
            show read alphabet (reader.push factor.value) factor.rest =
              (readFactors alphabet reader.enclosing.length factor.rest >>= _) >>= _
            rw [read_factors (reader.push factor.value) hdepth factor.rest htakes, bind_assoc]
            refine bind_congr fun factors => ?_
            show read alphabet ⟨⟨_, factors.value.reverse ++ factor.value :: _⟩, _⟩ _ =
              read alphabet ⟨⟨_, (factor.value :: factors.value).reverse ++ _⟩, _⟩ _
            rw [List.reverse_cons, List.append_assoc]
            rfl
termination_by 4 * tokens.length + 1
decreasing_by
  all_goals subst_vars
  all_goals simp only [List.length_cons]
  all_goals omega

/-- A reader that takes in the alternatives of a group goes on behind the group. -/
theorem read_alternatives {finished : List Regex} {enclosing : List (Nat × Group)}
    (hdepth : enclosing.length ≤ maxNesting) (tokens : List Token) :
    read alphabet ⟨⟨finished, []⟩, enclosing⟩ tokens =
      readAlternatives alphabet enclosing.length tokens >>= fun p =>
        leave alphabet (balanced .alt .epsilon (finished.reverse ++ p.value)) enclosing p.rest := by
  rw [readAlternatives, read_factors _ hdepth tokens fun _ _ _ _ => rfl, bind_assoc]
  cases hfactors : readFactors alphabet enclosing.length tokens with
  | error fault => rfl
  | ok factors =>
      have hstop := readFactors_rest hfactors
      obtain ⟨factors, behind, hbehind⟩ := factors
      show read alphabet ⟨⟨finished, factors.reverse ++ []⟩, enclosing⟩ behind = _
      rw [List.append_nil]
      have hclose : Group.close ⟨finished, factors.reverse⟩ =
          balanced .alt .epsilon (finished.reverse ++ [balanced .cat .epsilon factors]) := by
        simp [Group.close, Group.alternative]
      cases behind with
      | nil =>
          rw [read_eq_leave _ [] nofun, hclose]
          rfl
      | cons token more =>
          obtain ⟨kind, position⟩ := token
          rcases hstop _ rfl with rfl | rfl
          · rw [read_cons]
            show read alphabet ⟨⟨balanced .cat .epsilon factors.reverse.reverse :: finished, []⟩,
              enclosing⟩ more = (readAlternatives alphabet enclosing.length more >>= _) >>= _
            rw [List.reverse_reverse, read_alternatives hdepth more, bind_assoc]
            refine bind_congr fun alternatives => ?_
            rw [List.reverse_cons, List.append_assoc]
            rfl
          · have hclosing : ∀ token ∈ (⟨.closing, position⟩ :: more : List Token).head?,
                token.kind = .closing := by
              rintro _ ⟨⟩
              rfl
            rw [read_eq_leave _ _ hclosing, hclose]
            rfl
termination_by 4 * tokens.length + 2

end

end Reader

/-- The tokens of a pattern are read by recursion as the reader takes them in. -/
theorem Regex.ofTokens_eq {alphabet : Alphabet} (tokens : List Token) :
    ofTokens alphabet tokens = Reader.start.run alphabet tokens >>= Reader.finish := by
  show _ = Reader.read alphabet ⟨⟨[], []⟩, []⟩ tokens
  rw [Reader.read_alternatives (Nat.zero_le _) tokens, ofTokens]
  refine bind_congr fun p => ?_
  obtain ⟨alternatives, behind, hbehind⟩ := p
  cases behind with
  | nil => rfl
  | cons token more => rfl

end RegexEquiv
