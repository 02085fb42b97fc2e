import RegexEquiv.Alphabet
import RegexEquiv.Token.Scan

/-!
# The alphabet of some patterns

Patterns that come without an alphabet are read over the symbols that they write. A wildcard in any
of them adds the printable characters, so that it keeps matching more than what is written.
-/

namespace RegexEquiv

/-- The symbols that a token writes. -/
def TokenKind.symbols : TokenKind → List Char
  | symbol c => [c]
  | oneOf members => members.map (·.symbol)
  | _ => []

namespace Alphabet

/-- The symbols that some tokens write, and the printable characters if there is a wildcard. -/
def ofTokens (tokens : List Token) : Alphabet :=
  let written := .ofList (tokens.flatMap fun t => t.kind.symbols)
  if tokens.any (·.kind == .wildcard) then written.union printable else written

/-- The alphabet of some patterns, or the fault of the first that cannot be split into tokens. -/
def ofPatterns (patterns : List (List Char)) : Except SyntaxError Alphabet := do
  let tokens ← patterns.mapM fun pattern =>
    (Token.scan pattern).mapError fun fault => ({ fault with pattern } : SyntaxError)
  return ofTokens tokens.flatten

end Alphabet

end RegexEquiv
