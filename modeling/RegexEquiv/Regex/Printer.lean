import RegexEquiv.Regex.Basic
import RegexEquiv.Token.Basic

/-!
# Printing regular expressions

`Regex.print` writes an expression as a pattern with no more parentheses than its operators need:
an alternative is enclosed in a chain of factors or under a quantifier, and a chain of factors under
a quantifier. Symbols with a meaning of their own follow a backslash.
-/

namespace RegexEquiv.Regex

/-- Where an expression stands: free, as a factor of a chain, or under a quantifier. -/
inductive Place where
  | free
  | factor
  | operand
deriving DecidableEq, Repr

/-- A symbol, behind a backslash when it has a meaning of its own. -/
def printSymbol (c : Char) : List Char := if Token.isReserved c then ['\\', c] else [c]

/-- A text, enclosed in parentheses if so asked. -/
def enclose (enclosed : Bool) (text : List Char) : List Char :=
  if enclosed then '(' :: text ++ [')'] else text

/-- Writes an expression that stands at a place. -/
def printAt : Place → Regex → List Char
  | _, empty => ['[', ']']
  | _, epsilon => ['(', ')']
  | _, symbol c => printSymbol c
  | place, alt left right =>
      enclose (place != .free) (printAt .free left ++ '|' :: printAt .free right)
  | place, cat left right =>
      enclose (place == .operand) (printAt .factor left ++ printAt .factor right)
  | _, star inner => printAt .operand inner ++ ['*']
  | _, plus inner => printAt .operand inner ++ ['+']

/-- Writes an expression as a pattern. -/
def print (r : Regex) : List Char := printAt .free r

end RegexEquiv.Regex
