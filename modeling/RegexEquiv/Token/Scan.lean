import RegexEquiv.Fault
import RegexEquiv.Text.Interval
import RegexEquiv.Token.Basic

/-!
# Splitting a pattern into tokens

`Token.scan` reads a pattern from left to right, one character at a time. A backslash makes a
symbol of the character after it. A class runs from `[` to the first bare `]`; inside, a bare hyphen
between two items makes a range of them, and a hyphen before the closing bracket is a symbol. Since
the reader is a fold over the characters, reading a text and then another is one reading
(`scanFrom_append`).
-/

namespace RegexEquiv

/-- A character as it was written: bare, or behind a backslash. -/
inductive Glyph where
  | bare (c : Char)
  | escaped (c : Char)
deriving DecidableEq, Repr

/-- The character of a glyph. -/
def Glyph.char : Glyph → Char
  | bare c | escaped c => c

/-- What a class has read and not yet turned into members. -/
inductive Pending where
  | nothing
  /-- An item that may turn out to be the lower end of a range. -/
  | item (m : ClassMember)
  /-- An item and the hyphen after it, at the given offset. -/
  | hyphen (m : ClassMember) (position : Nat)
deriving DecidableEq, Repr

/-- The members that pending items stand for when no range follows. -/
def Pending.members : Pending → List ClassMember
  | nothing => []
  | item m => [m]
  | hyphen m position => [m, ⟨'-', position⟩]

/-- Where the reader stands: between tokens, or in a class that was opened at an offset and has
members and pending items. -/
inductive ScanMode where
  | between
  | inClass (opened : Nat) (members : List ClassMember) (pending : Pending)
deriving DecidableEq, Repr

/-- The reader: the offset of the next character, the offset of a backslash that waits for its
character, the mode, and the tokens read so far, last first. -/
structure Scan where
  position : Nat
  escape : Option Nat
  mode : ScanMode
  tokens : List Token
deriving DecidableEq, Repr

namespace Scan

/-- The reader at the start of a pattern. -/
def start : Scan := ⟨0, none, .between, []⟩

/-- The kind of the token that a bare character makes outside classes, other than `[`. -/
def kindOf : Char → TokenKind
  | '(' => .opening
  | ')' => .closing
  | '|' => .bar
  | '*' => .quantifier .star
  | '+' => .quantifier .plus
  | '?' => .quantifier .optional
  | '.' => .wildcard
  | c => .symbol c

/-- The members of the range from an item to a character, or its fault. -/
def range (lower : ClassMember) (hi : Char) : Except Fault (List ClassMember) :=
  if hi < lower.symbol then .error ⟨lower.position, .invalidRange lower.symbol hi⟩
  else .ok ((Text.interval lower.symbol hi).map fun c => ⟨c, lower.position⟩)

/-- Takes in a glyph that starts at an offset. -/
def read (scan : Scan) (position : Nat) (glyph : Glyph) : Except Fault Scan :=
  match scan.mode, glyph with
  | .between, .bare '[' => .ok { scan with mode := .inClass position [] .nothing }
  | .between, .bare c => .ok { scan with tokens := ⟨kindOf c, position⟩ :: scan.tokens }
  | .between, .escaped c => .ok { scan with tokens := ⟨.symbol c, position⟩ :: scan.tokens }
  | .inClass opened members pending, .bare ']' =>
      .ok { scan with
        mode := .between
        tokens := ⟨.oneOf (members ++ pending.members), opened⟩ :: scan.tokens }
  | .inClass opened members (.item m), .bare '-' =>
      .ok { scan with mode := .inClass opened members (.hyphen m position) }
  | .inClass opened members (.hyphen m _), glyph =>
      (range m glyph.char).map fun ms =>
        { scan with mode := .inClass opened (members ++ ms) .nothing }
  | .inClass opened members pending, glyph =>
      .ok { scan with
        mode := .inClass opened (members ++ pending.members) (.item ⟨glyph.char, position⟩) }

/-- Takes in the next character: a bare backslash waits for the character after it. -/
def step (scan : Scan) (c : Char) : Except Fault Scan :=
  let next := { scan with position := scan.position + 1, escape := none }
  match scan.escape with
  | some position => next.read position (.escaped c)
  | none =>
      if c = '\\' then .ok { next with escape := some scan.position }
      else next.read scan.position (.bare c)

/-- The tokens at the end of the pattern, unless a backslash or a class is left open. -/
def finish (scan : Scan) : Except Fault (List Token) :=
  match scan.escape, scan.mode with
  | some position, _ => .error ⟨position, .danglingEscape⟩
  | none, .inClass opened _ _ => .error ⟨opened, .unclosedClass⟩
  | none, .between => .ok scan.tokens.reverse

end Scan

namespace Token

/-- Reads on from a state of the reader. -/
def scanFrom (scan : Scan) (text : List Char) : Except Fault Scan := text.foldlM Scan.step scan

/-- The tokens of a pattern, or its first fault. -/
def scan (pattern : List Char) : Except Fault (List Token) :=
  scanFrom .start pattern >>= Scan.finish

/-- Reading one text after another is reading them joined. -/
theorem scanFrom_append (scan : Scan) (text more : List Char) :
    scanFrom scan (text ++ more) = scanFrom scan text >>= fun mid => scanFrom mid more :=
  List.foldlM_append

end Token

end RegexEquiv
