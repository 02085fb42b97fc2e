import RegexEquiv.Regex.Basic
import RegexEquiv.Token.Basic

/-!
# Building regular expressions

The parts of a pattern are joined here. Chains of alternatives and of factors become balanced trees,
so that a long pattern has a shallow tree. A quantifier on top of a quantifier collapses, so that a
stack of them is no deeper than one. A set of symbols is a balanced chain of its members in order.
-/

namespace RegexEquiv

namespace Regex

/-- Joins a chain into a tree whose left half is at most one longer than its right half. The chain
without members is `unit`. -/
def balanced (join : Regex → Regex → Regex) (unit : Regex) (chain : List Regex) : Regex :=
  match chain with
  | [] => unit
  | [r] => r
  | r :: s :: rest =>
      let half := (rest.length + 3) / 2
      join (balanced join unit ((r :: s :: rest).take half))
        (balanced join unit ((r :: s :: rest).drop half))
termination_by chain.length
decreasing_by
  · simp only [List.length_take, List.length_cons]
    omega
  · simp only [List.length_drop, List.length_cons]
    omega

/-- One of the given symbols. -/
def oneOf (symbols : Alphabet) : Regex :=
  balanced alt empty (symbols.toList.map symbol)

/-- An operand, any number of times. -/
def repeated : Regex → Regex
  | star inner => star inner
  | plus inner => star inner
  | r => star r

/-- An operand, at least once. -/
def repeatedOnce : Regex → Regex
  | star inner => star inner
  | plus inner => plus inner
  | r => plus r

/-- An operand, at most once. -/
def optional : Regex → Regex
  | star inner => star inner
  | alt left epsilon => alt left epsilon
  | plus inner => star inner
  | r => alt r epsilon

end Regex

/-- Applies a quantifier to its operand. -/
def Quantifier.apply : Quantifier → Regex → Regex
  | star => Regex.repeated
  | plus => Regex.repeatedOnce
  | optional => Regex.optional

end RegexEquiv
