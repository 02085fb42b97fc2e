/-!
# Tokens of a pattern

A token is a symbol, a class of symbols, the wildcard, a quantifier, a bar or a parenthesis,
together with the offset of its first character. The members of a class keep the offset of the item
that wrote them, so that a fault in a long class can be shown at its item.
-/

namespace RegexEquiv

/-- The operators that repeat or drop the operand before them. -/
inductive Quantifier where
  /-- Any number of times. -/
  | star
  /-- At least once. -/
  | plus
  /-- At most once. -/
  | optional
deriving DecidableEq, Repr

/-- A symbol of a class, and the offset of the item that it comes from. -/
structure ClassMember where
  symbol : Char
  position : Nat
deriving DecidableEq, Repr

/-- What a token stands for. -/
inductive TokenKind where
  | symbol (c : Char)
  | oneOf (members : List ClassMember)
  | wildcard
  | quantifier (q : Quantifier)
  | bar
  | opening
  | closing
deriving DecidableEq, Repr

/-- A token and the offset of its first character. -/
structure Token where
  kind : TokenKind
  position : Nat
deriving DecidableEq, Repr

namespace Token

/-- The characters with a meaning of their own. Each is a symbol when a backslash precedes it. -/
def reserved : List Char := ['(', ')', '|', '*', '+', '?', '.', '[', ']', '\\']

/-- Whether a character has a meaning of its own. -/
def isReserved (c : Char) : Bool := reserved.contains c

end Token

end RegexEquiv
