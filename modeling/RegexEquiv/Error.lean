import RegexEquiv.Fault

/-!
# Budgets and errors

The two constructions that can grow large run under a budget of states. A construction asks
`Stage.allow` before it adds a state and stops with an error once the budget is used up.
`Stage.allow_none` says that a construction without a budget is never stopped. Errors are joined
here: patterns that cannot be read, budgets that do not suffice, automata that cannot be drawn.
-/

namespace RegexEquiv

/-- The largest numbers of states that the constructions may use; `none` sets no bound. -/
structure Limits where
  dfaStates : Option Nat := none
  productStates : Option Nat := none
deriving DecidableEq, Repr

/-- The constructions that run under a budget. -/
inductive Stage where
  | determinization
  | productSearch
deriving DecidableEq, Repr

/-- What can go wrong. -/
inductive Error where
  /-- A pattern cannot be read. -/
  | malformed (e : SyntaxError)
  /-- A construction needs more states than its budget. -/
  | overBudget (stage : Stage) (limit : Nat)
  /-- An automaton cannot be drawn. -/
  | unrenderable (reason : List Char)
deriving DecidableEq, Repr

namespace Stage

/-- The name of a construction in messages. -/
def name : Stage → List Char
  | determinization => "determinization".toList
  | productSearch => "product search".toList

/-- The budget of a construction. -/
def limit? : Stage → Limits → Option Nat
  | determinization, limits => limits.dfaStates
  | productSearch, limits => limits.productStates

/-- Allows one more state beside the given number of states, within the budget. -/
def allow (stage : Stage) (limits : Limits) (count : Nat) : Except Error Unit :=
  match stage.limit? limits with
  | some limit => if count < limit then .ok () else .error (.overBudget stage limit)
  | none => .ok ()

/-- Without a budget, one more state is always allowed. -/
theorem allow_none {stage : Stage} {limits : Limits} (h : stage.limit? limits = none)
    (count : Nat) : stage.allow limits count = .ok () := by
  rw [allow, h]

end Stage

namespace Error

/-- The wording of an error. -/
def message : Error → List Char
  | malformed e => e.message
  | overBudget stage limit =>
      stage.name ++ " exceeded the limit of ".toList ++ Nat.toDigits 10 limit ++ " states".toList
  | unrenderable reason => "cannot render automaton: ".toList ++ reason

/-- The wording of the error behind an error, if there is one. -/
def source? : Error → Option (List Char)
  | malformed e => some e.message
  | overBudget _ _ | unrenderable _ => none

end Error

end RegexEquiv
