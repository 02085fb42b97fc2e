import RegexEquiv.Text.Unprintable

/-!
# Quoted text

Messages and drawings quote characters and words. A quoted character stands between single quotes
and a quoted word between double quotes; inside, the backslash and the enclosing quote follow a
backslash, the common controls have a letter of their own, every other character without a visible
form is spelled as its code point in hexadecimal, and all others stand for themselves.
-/

namespace RegexEquiv.Text

/-- A character spelled as its code point, in lower case without leading zeros. -/
def codePoint (c : Char) : List Char :=
  ['\\', 'u', '{'] ++ Nat.toDigits 16 c.toNat ++ ['}']

/-- A character as it is written between two marks `quote`. -/
def escape (quote c : Char) : List Char :=
  if c = '\x00' then ['\\', '0']
  else if c = '\t' then ['\\', 't']
  else if c = '\n' then ['\\', 'n']
  else if c = '\r' then ['\\', 'r']
  else if c = '\\' ∨ c = quote then ['\\', c]
  else if isUnprintable c then codePoint c
  else [c]

/-- A character between single quotes. -/
def quotedChar (c : Char) : List Char :=
  '\'' :: escape '\'' c ++ ['\'']

/-- A text between double quotes. -/
def quoted (text : List Char) : List Char :=
  '"' :: text.flatMap (escape '"') ++ ['"']

end RegexEquiv.Text
