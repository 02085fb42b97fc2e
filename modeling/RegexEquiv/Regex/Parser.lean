import RegexEquiv.Regex.Build
import RegexEquiv.Token.Scan

/-!
# Reading regular expressions

A pattern is a chain of alternatives, an alternative is a chain of factors, and a factor is an
operand under any number of quantifiers: a symbol, a class, the wildcard or a group. Each of these
has a function that reads one from the front of some tokens and passes on the tokens behind it, and
that counts how many groups are open. The first fault ends the reading. At most `maxNesting` groups
may be open at once.

Groups are read by recursion. What is passed on is never longer than what was there
(`Parsed.le`), so the recursion comes to an end.
-/

namespace RegexEquiv

/-- The number of groups that may be open at once. -/
def maxNesting : Nat := 256

/-- What was read from some tokens, and the tokens behind it, of which there are at most as many as
a bound says. -/
structure Parsed (α : Type) (bound : Nat) where
  value : α
  rest : List Token
  le : rest.length ≤ bound

/-- Behind the next token there are fewer. -/
theorem Parsed.length_lt {α : Type} {bound : Nat} (p : Parsed α bound) {token : Token}
    {more : List Token} (h : p.rest = token :: more) : more.length < bound := by
  have hle := p.le
  rwa [h] at hle

/-- Applies the quantifiers at the front of some tokens to an operand. -/
def Regex.quantify (r : Regex) (tokens : List Token) : Parsed Regex tokens.length :=
  match tokens with
  | [] => ⟨r, [], Nat.le_refl _⟩
  | token :: rest =>
      match token.kind with
      | .quantifier q =>
          let read := quantify (q.apply r) rest
          ⟨read.value, read.rest, Nat.le_succ_of_le read.le⟩
      | _ => ⟨r, token :: rest, Nat.le_refl _⟩

namespace Regex

mutual

/-- Reads an operand: a token, and the rest of its group if it opens one. -/
def readOperand (alphabet : Alphabet) (depth : Nat) (token : Token) (rest : List Token) :
    Except Fault (Parsed Regex rest.length) :=
  match token.kind with
  | .symbol c =>
      if c ∈ alphabet then .ok ⟨.symbol c, rest, Nat.le_refl _⟩
      else .error ⟨token.position, .unknownSymbol c⟩
  | .oneOf members =>
      match members.find? (·.symbol ∉ alphabet) with
      | some m => .error ⟨m.position, .unknownSymbol m.symbol⟩
      | none => .ok ⟨.oneOf (.ofList (members.map (·.symbol))), rest, Nat.le_refl _⟩
  | .wildcard => .ok ⟨.oneOf alphabet, rest, Nat.le_refl _⟩
  | .opening =>
      if depth = maxNesting then .error ⟨token.position, .nestingTooDeep⟩
      else do
        let group ← readAlternatives alphabet (depth + 1) rest
        match h : group.rest with
        | ⟨.closing, _⟩ :: behind =>
            return ⟨balanced .alt .epsilon group.value, behind, Nat.le_of_lt (group.length_lt h)⟩
        | _ => throw ⟨token.position, .unclosedGroup⟩
  | .quantifier _ | .bar => .error ⟨token.position, .missingOperand⟩
  | .closing => .error ⟨token.position, .unopenedGroup⟩
termination_by 4 * rest.length + 3

/-- Reads an operand and applies the quantifiers behind it. -/
def readFactor (alphabet : Alphabet) (depth : Nat) (token : Token) (rest : List Token) :
    Except Fault (Parsed Regex rest.length) := do
  let operand ← readOperand alphabet depth token rest
  let factor := operand.value.quantify operand.rest
  return ⟨factor.value, factor.rest, Nat.le_trans factor.le operand.le⟩
termination_by 4 * rest.length + 4

/-- Reads factors up to a bar, a closing parenthesis or the end. -/
def readFactors (alphabet : Alphabet) (depth : Nat) (tokens : List Token) :
    Except Fault (Parsed (List Regex) tokens.length) :=
  match tokens with
  | [] => .ok ⟨[], [], Nat.le_refl _⟩
  | token :: rest =>
      if token.kind = .bar ∨ token.kind = .closing then .ok ⟨[], token :: rest, Nat.le_refl _⟩
      else do
        let factor ← readFactor alphabet depth token rest
        have hle := factor.le
        let factors ← readFactors alphabet depth factor.rest
        return ⟨factor.value :: factors.value, factors.rest,
          Nat.le_succ_of_le (Nat.le_trans factors.le hle)⟩
termination_by 4 * tokens.length + 1

/-- Reads alternatives up to a closing parenthesis or the end. -/
def readAlternatives (alphabet : Alphabet) (depth : Nat) (tokens : List Token) :
    Except Fault (Parsed (List Regex) tokens.length) := do
  let factors ← readFactors alphabet depth tokens
  let alternative := balanced .cat .epsilon factors.value
  match h : factors.rest with
  | ⟨.bar, _⟩ :: more =>
      have hlt := factors.length_lt h
      let alternatives ← readAlternatives alphabet depth more
      return ⟨alternative :: alternatives.value, alternatives.rest,
        Nat.le_trans alternatives.le (Nat.le_of_lt hlt)⟩
  | _ => return ⟨[alternative], factors.rest, factors.le⟩
termination_by 4 * tokens.length + 2

end

/-- The expression that some tokens write over an alphabet, or the first fault among them. -/
def ofTokens (alphabet : Alphabet) (tokens : List Token) : Except Fault Regex := do
  let alternatives ← readAlternatives alphabet 0 tokens
  match alternatives.rest with
  | [] => return balanced .alt .epsilon alternatives.value
  | token :: _ => throw ⟨token.position, .unopenedGroup⟩

/-- Reads a pattern over an alphabet. -/
def parse (pattern : List Char) (alphabet : Alphabet) : Except SyntaxError Regex :=
  (Token.scan pattern >>= ofTokens alphabet).mapError fun fault => { fault with pattern }

end Regex

end RegexEquiv
