import RegexEquiv.SortedSet
import RegexEquiv.Text.Interval
import RegexEquiv.Text.Quoted

/-!
# Alphabets

An alphabet is the finite, ordered set of symbols that an automaton runs over. The position of a
symbol is its column in the automaton's table. `Alphabet.printable` is the alphabet that stands
behind the wildcard when none is given.
-/

namespace RegexEquiv

/-- A finite set of symbols, ordered by code point. -/
abbrev Alphabet := SortedSet Char

namespace Alphabet

/-- The visible characters of ASCII, the space, and the tabulators and line ends. -/
def printable : Alphabet :=
  .ofList (Text.interval ' ' '~' ++ ['\t', '\n', '\r', '\x0b', '\x0c'])

/-- The symbols in order, quoted, between braces. -/
def display (symbols : Alphabet) : List Char :=
  '{' :: [',', ' '].intercalate (symbols.toList.map Text.quotedChar) ++ ['}']

end Alphabet

end RegexEquiv
