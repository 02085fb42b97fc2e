import RegexEquiv.Text.Quoted

/-!
# Faults in patterns

A pattern that cannot be read has a fault: what is wrong, and the offset of the character where it
is wrong. `SyntaxError` joins the fault to the pattern, words it as a message, and can show the
pattern with the faulty character marked. `SyntaxError.highlight_id` says that showing the pattern
without a mark shows the pattern.
-/

namespace RegexEquiv

/-- What can be wrong in a pattern. -/
inductive FaultCause where
  /-- A group is opened and never closed. -/
  | unclosedGroup
  /-- A group is closed that was never opened. -/
  | unopenedGroup
  /-- A quantifier has nothing to apply to. -/
  | missingOperand
  /-- A symbol is not in the alphabet. -/
  | unknownSymbol (symbol : Char)
  /-- The pattern ends after a backslash. -/
  | danglingEscape
  /-- A class is opened and never closed. -/
  | unclosedClass
  /-- The lower end of a range is above its upper end. -/
  | invalidRange (lo hi : Char)
  /-- Too many groups are open at once. -/
  | nestingTooDeep
deriving DecidableEq, Repr

/-- A cause, and the offset of the character where it shows. -/
structure Fault where
  position : Nat
  cause : FaultCause
deriving DecidableEq, Repr

/-- A pattern that cannot be read, with its fault. -/
structure SyntaxError extends Fault where
  pattern : List Char
deriving DecidableEq, Repr

/-- The wording of a cause. -/
def FaultCause.message : FaultCause → List Char
  | unclosedGroup => "')' expected".toList
  | unopenedGroup => "unexpected ')'".toList
  | missingOperand => "operator has no operand".toList
  | unknownSymbol c => "symbol ".toList ++ Text.quotedChar c ++ " is not in the alphabet".toList
  | danglingEscape => "unexpected end of the expression after '\\'".toList
  | unclosedClass => "']' expected".toList
  | invalidRange lo hi =>
      "invalid range ".toList ++ Text.quotedChar lo ++ ['-'] ++ Text.quotedChar hi
  | nestingTooDeep => "parentheses nested too deep".toList

namespace SyntaxError

/-- The wording of a syntax error: place, pattern, cause. -/
def message (e : SyntaxError) : List Char :=
  "syntax error at position ".toList ++ Nat.toDigits 10 e.position ++ " in ".toList ++
    Text.quoted e.pattern ++ ": ".toList ++ e.cause.message

/-- The pattern with the faulty character marked, or with a marked underscore behind it when the
fault lies beyond its end. -/
def highlight (mark : List Char → List Char) (e : SyntaxError) : List Char :=
  match e.pattern.drop e.position with
  | [] => e.pattern ++ mark ['_']
  | c :: rest => e.pattern.take e.position ++ mark [c] ++ rest

/-- Without a mark, a fault inside the pattern shows the pattern itself. -/
theorem highlight_id {e : SyntaxError} (h : e.position < e.pattern.length) :
    e.highlight id = e.pattern := by
  rw [highlight, List.drop_eq_getElem_cons h]
  simp only [id_eq, List.append_assoc, List.singleton_append, ← List.drop_eq_getElem_cons h,
    List.take_append_drop]

end SyntaxError

end RegexEquiv
