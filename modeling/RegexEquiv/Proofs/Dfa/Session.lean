import RegexEquiv.Proofs.Dfa.Lookup
import RegexEquiv.Proofs.Dfa.WellFormed
import RegexEquiv.Proofs.Nfa.Thompson

/-!
# Sequences of operations on automata

Starting with none, automata over one alphabet are determinised from expressions, combined into
products and complemented in place, in any order and number. Beside each stands the formula that
says which words it should accept. Every operation keeps all automata well formed and in agreement
with their formulas (`Dfa.sound_perform`), so any sequence of them does (`Dfa.sound_session`), and
then no lookup in any of the automata can miss its table: `Dfa.session_wellFormed`.
-/

namespace RegexEquiv

/-- The combination of two conditions. -/
def Combination.Holds : Combination → Prop → Prop → Prop
  | intersection, left, right => left ∧ right
  | union, left, right => left ∨ right
  | difference, left, right => left ∧ ¬ right
  | symmetricDifference, left, right => ¬ (left ↔ right)

theorem Combination.accepts_eq_true_iff {op : Combination} {left right : Bool} :
    op.accepts left right = true ↔ op.Holds (left = true) (right = true) := by
  cases op <;> cases left <;> cases right <;> simp [accepts, Holds]

/-- A Boolean combination of expressions. -/
inductive Formula where
  | words (r : Regex)
  | combined (op : Combination) (left right : Formula)
  | negated (f : Formula)
deriving DecidableEq

/-- Whether a word is selected, judged by the words of the expressions. -/
def Formula.Selects : Formula → Word → Prop
  | words r, w => r.Matches w
  | combined op left right, w => op.Holds (left.Selects w) (right.Selects w)
  | negated f, w => ¬ f.Selects w

namespace Dfa

/-- An automaton and the formula by which it was built. -/
structure Built where
  formula : Formula
  dfa : Dfa
deriving DecidableEq

/-- An operation on the automata built so far, which it names by their positions. -/
inductive Operation where
  | determinize (r : Regex) (limits : Limits)
  | product (left right : Nat) (op : Combination) (limits : Limits)
  | complement (index : Nat)

namespace Built

/-- Determinises the automaton of an expression. -/
def ofRegex (r : Regex) (alphabet : Alphabet) (limits : Limits) : Except Error Built :=
  (Dfa.ofNfa (Nfa.ofRegex r) alphabet limits).map (⟨.words r, ·⟩)

/-- Combines two automata. -/
def product (x y : Built) (op : Combination) (limits : Limits) : Except Error Built :=
  (x.dfa.product y.dfa op limits).map (⟨.combined op x.formula y.formula, ·⟩)

/-- Complements an automaton. -/
def complement (x : Built) : Built := ⟨.negated x.formula, x.dfa.complement⟩

end Built

/-- Adds what has been built. A failure adds nothing. -/
def collect (built : List Built) : Except Error Built → List Built
  | .ok x => built ++ [x]
  | .error _ => built

/-- The automata after an operation. An operation on a position where there is none does nothing. -/
def perform (alphabet : Alphabet) (built : List Built) : Operation → List Built
  | .determinize r limits => collect built (Built.ofRegex r alphabet limits)
  | .product left right op limits =>
      match built[left]?, built[right]? with
      | some x, some y => collect built (x.product y op limits)
      | _, _ => built
  | .complement index => built.modify index Built.complement

/-- The automata after a sequence of operations. -/
def session (alphabet : Alphabet) (operations : List Operation) : List Built :=
  operations.foldl (perform alphabet) []

/-- `x.Sound alphabet` says that an automaton is well formed and accepts the words over the alphabet
that its formula selects. -/
structure Built.Sound (x : Built) (alphabet : Alphabet) : Prop where
  wellFormed : x.dfa.WellFormed alphabet
  accepts_iff : ∀ w, x.dfa.accepts w = true ↔ Word.Over alphabet w ∧ x.formula.Selects w

variable {alphabet : Alphabet} {limits : Limits} {built : List Built} {x y z : Built}

/-! ## One operation -/

theorem Built.sound_ofRegex {r : Regex} (h : Built.ofRegex r alphabet limits = .ok z) :
    z.Sound alphabet := by
  obtain ⟨d, hd, rfl⟩ := Except.map_eq_ok_iff.1 h
  have hclosed := Nfa.closed_ofRegex r
  refine ⟨wellFormed_ofNfa hclosed hd, fun w => ?_⟩
  rw [accepts_ofNfa hclosed hd, Nfa.accepts_iff_leads hclosed, Nfa.leads_ofRegex_iff]
  rfl

theorem Built.Sound.product {op : Combination} (hx : x.Sound alphabet) (hy : y.Sound alphabet)
    (h : x.product y op limits = .ok z) : z.Sound alphabet := by
  obtain ⟨d, hd, rfl⟩ := Except.map_eq_ok_iff.1 h
  have hab := hx.wellFormed.alphabet_eq_alphabet hy.wellFormed
  refine ⟨hx.wellFormed.product hy.wellFormed hd, fun w => ?_⟩
  rw [accepts_product hx.wellFormed.total hy.wellFormed.total hab hd, Meets,
    hx.wellFormed.alphabet_eq, Combination.accepts_eq_true_iff]
  -- On words over the alphabet, the operands answer as their formulas do.
  refine and_congr_right fun hover => ?_
  rw [Formula.Selects, (hx.accepts_iff w).trans (and_iff_right hover),
    (hy.accepts_iff w).trans (and_iff_right hover)]

theorem Built.Sound.complement (hx : x.Sound alphabet) : x.complement.Sound alphabet := by
  refine ⟨hx.wellFormed.complement, fun w => ?_⟩
  show x.dfa.complement.accepts w = true ↔ _
  rw [accepts_complement hx.wellFormed.total, hx.wellFormed.alphabet_eq]
  refine and_congr_right fun hover => ?_
  rw [(hx.accepts_iff w).trans (and_iff_right hover)]
  rfl

/-- Whether it succeeds or fails, a construction that is sound adds nothing unsound. -/
theorem sound_collect {result : Except Error Built} (hbuilt : ∀ x ∈ built, x.Sound alphabet)
    (hresult : ∀ x, result = .ok x → x.Sound alphabet) :
    ∀ x ∈ collect built result, x.Sound alphabet := by
  cases result with
  | error e => exact hbuilt
  | ok z =>
      intro x hx
      obtain hx | hx := List.mem_append.1 hx
      · exact hbuilt x hx
      · obtain rfl := List.mem_singleton.1 hx
        exact hresult x rfl

/-- Every operation keeps all automata sound. -/
theorem sound_perform (hbuilt : ∀ x ∈ built, x.Sound alphabet) (operation : Operation) :
    ∀ x ∈ perform alphabet built operation, x.Sound alphabet := by
  cases operation with
  | determinize r limits =>
      exact sound_collect hbuilt fun _ hz => Built.sound_ofRegex hz
  | product left right op limits =>
      simp only [perform]
      split
      · rename_i x y hleft hright
        have hx := hbuilt x (List.mem_of_getElem? hleft)
        have hy := hbuilt y (List.mem_of_getElem? hright)
        exact sound_collect hbuilt fun _ hz => hx.product hy hz
      · exact hbuilt
  | complement index =>
      intro x hx
      obtain ⟨i, hi⟩ := List.mem_iff_getElem?.1 hx
      rw [perform, List.getElem?_modify, Option.map_eq_map, Option.map_eq_some_iff] at hi
      obtain ⟨y, hy, rfl⟩ := hi
      have hsound := hbuilt y (List.mem_of_getElem? hy)
      split
      · exact hsound.complement
      · exact hsound

/-! ## All operations -/

/-- After any sequence of operations all automata are sound. -/
theorem sound_session (alphabet : Alphabet) (operations : List Operation) :
    ∀ x ∈ session alphabet operations, x.Sound alphabet := by
  unfold session
  induction operations using List.reverseRecOn with
  | nil => exact nofun
  | append_singleton operations operation ih =>
      rw [List.foldl_append, List.foldl_cons, List.foldl_nil]
      exact sound_perform ih operation

/-- Every automaton built by a sequence of operations is well formed: it is total, starts in its
first state, accepts in states of its table only, and has no state to which no word leads. It
accepts the words over the alphabet that the same combination of the source languages selects, and
no lookup in a state of it misses its table. -/
theorem session_wellFormed (alphabet : Alphabet) (operations : List Operation) :
    ∀ x ∈ session alphabet operations, x.dfa.WellFormed alphabet ∧
      (∀ w, x.dfa.accepts w = true ↔ Word.Over alphabet w ∧ x.formula.Selects w) ∧
      x.dfa.InTable := by
  intro x hx
  have hsound := sound_session alphabet operations x hx
  exact ⟨hsound.wellFormed, hsound.accepts_iff, inTable_of_isTotal hsound.wellFormed.total⟩

open Regex in
/-- The second automaton is not built, since its budget lacks a state. The last one accepts the
words that end with `b` and are not just a row of `a` before it. -/
theorem session_wellFormed_ends :
    ∃ x ∈ session (.ofList ['a', 'b'])
        [.determinize (cat (star (symbol 'a')) (symbol 'b')) {},
          .determinize (cat (star (symbol 'a')) (symbol 'b')) ⟨some 3, none⟩,
          .complement 0,
          .determinize (cat (star (alt (symbol 'a') (symbol 'b'))) (symbol 'b')) {},
          .product 1 0 .intersection {}],
      x.dfa.WellFormed (.ofList ['a', 'b']) ∧ x.dfa.InTable ∧ x.dfa.accepts ['b', 'b'] = true ∧
        ∀ w, x.dfa.accepts w = true ↔ Word.Over (.ofList ['a', 'b']) w ∧
          (cat (star (alt (symbol 'a') (symbol 'b'))) (symbol 'b')).Matches w ∧
          ¬ (cat (star (symbol 'a')) (symbol 'b')).Matches w := by
  let x : Built :=
    { formula := .combined .intersection
        (.words (cat (star (alt (symbol 'a') (symbol 'b'))) (symbol 'b')))
        (.negated (.words (cat (star (symbol 'a')) (symbol 'b'))))
      dfa := ⟨.ofList ['a', 'b'], 0, #[⟨false, [1, 2]⟩, ⟨false, [1, 2]⟩, ⟨false, [3, 4]⟩,
        ⟨false, [3, 4]⟩, ⟨true, [3, 4]⟩]⟩ }
  have hx : x ∈ session (.ofList ['a', 'b'])
      [.determinize (cat (star (symbol 'a')) (symbol 'b')) {},
        .determinize (cat (star (symbol 'a')) (symbol 'b')) ⟨some 3, none⟩,
        .complement 0,
        .determinize (cat (star (alt (symbol 'a') (symbol 'b'))) (symbol 'b')) {},
        .product 1 0 .intersection {}] := by decide +kernel
  obtain ⟨hwellFormed, haccepts, hinTable⟩ := session_wellFormed _ _ x hx
  exact ⟨x, hx, hwellFormed, hinTable, by decide +kernel, haccepts⟩

end Dfa

end RegexEquiv
