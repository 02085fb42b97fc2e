import RegexEquiv.Alphabet
import RegexEquiv.Word

/-!
# Regular expressions and their languages

`Regex` is the syntax tree of a regular expression. `Regex.Matches r w` says that the word `w`
belongs to the language of `r`, by one rule for each way in which a word can arise. Two laws tie the
quantifiers together: `matches_star_iff` unfolds the repetition into no round or at least one, and
`matches_plus_iff` reads at least one round as a round before a repetition.
-/

namespace RegexEquiv

/-- A regular expression. -/
inductive Regex where
  /-- No word. -/
  | empty
  /-- The empty word. -/
  | epsilon
  /-- The word of one given symbol. -/
  | symbol (c : Char)
  /-- A word of the first, then a word of the second. -/
  | cat (left right : Regex)
  /-- A word of either. -/
  | alt (left right : Regex)
  /-- Any number of words, one after another. -/
  | star (inner : Regex)
  /-- One or more words, one after another. -/
  | plus (inner : Regex)
deriving DecidableEq, Repr, Inhabited

namespace Regex

/-- The symbols at the leaves, from left to right. -/
def leaves : Regex → List Char
  | empty | epsilon => []
  | symbol c => [c]
  | cat left right | alt left right => left.leaves ++ right.leaves
  | star inner | plus inner => inner.leaves

/-- The symbols that an expression mentions. -/
def symbols (r : Regex) : Alphabet := .ofList r.leaves

/-- `Matches r w` says that the word `w` belongs to the language of `r`. -/
inductive Matches : Regex → Word → Prop where
  | epsilon : Matches epsilon []
  | symbol (c : Char) : Matches (symbol c) [c]
  | cat {left right : Regex} {u v : Word} :
      Matches left u → Matches right v → Matches (cat left right) (u ++ v)
  | altLeft {left right : Regex} {w : Word} : Matches left w → Matches (alt left right) w
  | altRight {left right : Regex} {w : Word} : Matches right w → Matches (alt left right) w
  | starNil {inner : Regex} : Matches (star inner) []
  | starAppend {inner : Regex} {u v : Word} :
      Matches inner u → Matches (star inner) v → Matches (star inner) (u ++ v)
  | plus {inner : Regex} {u v : Word} :
      Matches inner u → Matches (star inner) v → Matches (plus inner) (u ++ v)

/-! ## One law for each constructor -/

@[simp]
theorem not_matches_empty (w : Word) : ¬ Matches empty w := nofun

@[simp]
theorem matches_epsilon_iff {w : Word} : Matches epsilon w ↔ w = [] :=
  ⟨fun h => by cases h; rfl, fun h => h ▸ .epsilon⟩

@[simp]
theorem matches_symbol_iff {c : Char} {w : Word} : Matches (symbol c) w ↔ w = [c] :=
  ⟨fun h => by cases h; rfl, fun h => h ▸ .symbol c⟩

theorem matches_cat_iff {left right : Regex} {w : Word} :
    Matches (cat left right) w ↔ ∃ u v, w = u ++ v ∧ Matches left u ∧ Matches right v := by
  constructor
  · intro h
    cases h with
    | cat hu hv => exact ⟨_, _, rfl, hu, hv⟩
  · rintro ⟨u, v, rfl, hu, hv⟩
    exact .cat hu hv

@[simp]
theorem matches_alt_iff {left right : Regex} {w : Word} :
    Matches (alt left right) w ↔ Matches left w ∨ Matches right w := by
  constructor
  · intro h
    cases h with
    | altLeft h => exact .inl h
    | altRight h => exact .inr h
  · rintro (h | h)
    · exact .altLeft h
    · exact .altRight h

/-- A repetition is no round, or a round and a repetition. -/
theorem matches_star_iff {inner : Regex} {w : Word} :
    Matches (star inner) w ↔
      w = [] ∨ ∃ u v, w = u ++ v ∧ Matches inner u ∧ Matches (star inner) v := by
  constructor
  · intro h
    cases h with
    | starNil => exact .inl rfl
    | starAppend hu hv => exact .inr ⟨_, _, rfl, hu, hv⟩
  · rintro (rfl | ⟨u, v, rfl, hu, hv⟩)
    · exact .starNil
    · exact .starAppend hu hv

/-- At least one round is a round and a repetition. -/
theorem matches_plus_iff {inner : Regex} {w : Word} :
    Matches (plus inner) w ↔ ∃ u v, w = u ++ v ∧ Matches inner u ∧ Matches (star inner) v := by
  constructor
  · intro h
    cases h with
    | plus hu hv => exact ⟨_, _, rfl, hu, hv⟩
  · rintro ⟨u, v, rfl, hu, hv⟩
    exact .plus hu hv

end Regex

end RegexEquiv
