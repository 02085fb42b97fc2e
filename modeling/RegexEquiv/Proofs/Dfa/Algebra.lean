import RegexEquiv.Proofs.Dfa.Numbering

/-!
# The algebra of products

The laws of Boolean algebra hold of products as automata, not only of their languages. A product is
known by what its states stand for and by its answers, so two products are equal as soon as their
states stand for the same, in whatever nesting, and their combinations of answers are the same. A
difference is an intersection with a complement (`Dfa.IsProduct.complement_right`), complements go
over from one combination to its dual (`Dfa.IsProduct.complement`), and operands may change places
or be grouped otherwise (`Dfa.IsProduct.swap`, `Dfa.IsProduct.assoc`). `Dfa.product_laws` collects
the laws.
-/

namespace RegexEquiv

namespace Combination

variable {op : Combination}

theorem accepts_comm (h : op ≠ difference) (x y : Bool) : op.accepts x y = op.accepts y x := by
  cases op with
  | intersection => exact Bool.and_comm x y
  | union => exact Bool.or_comm x y
  | difference => exact absurd rfl h
  | symmetricDifference => exact bne_comm

theorem accepts_assoc (h : op ≠ difference) (x y z : Bool) :
    op.accepts (op.accepts x y) z = op.accepts x (op.accepts y z) := by
  cases op with
  | intersection => exact Bool.and_assoc x y z
  | union => exact Bool.or_assoc x y z
  | difference => exact absurd rfl h
  | symmetricDifference => exact Bool.bne_assoc x y z

end Combination

namespace Dfa

variable {a b c d ab bc : Dfa} {op op' : Combination}

/-! ## Complements -/

/-- On words over the alphabet, the complement of a total automaton gives the opposite answer. -/
theorem accepts_complement_eq (h : d.isTotal = true) {w : Word} (hw : Word.Over d.alphabet w) :
    d.complement.accepts w = !d.accepts w := by
  rw [Bool.eq_iff_iff, accepts_complement h, and_iff_right hw, Bool.not_eq_true, Bool.not_eq_true']

/-- Complementing leaves the numbers of the states alone. -/
theorem NumberedByWords.complement {states : Nat} (h : d.NumberedByWords states) :
    d.complement.NumberedByWords states := by
  have hleast : d.complement.LeastWord = d.LeastWord := by
    funext s
    simp only [LeastWord, run?_complement]
  obtain ⟨hstart, hreached, hascending⟩ := h
  exact ⟨by rwa [hleast], by rwa [hleast], by rwa [hleast]⟩

namespace IsProduct

/-- A combination may be replaced by one that does the same with the opposite answer of the second
operand. -/
theorem complement_right (h : d.IsProduct a b op) (hb : b.isTotal = true)
    (hab : a.alphabet = b.alphabet) (hop : ∀ x y, op.accepts x y = op'.accepts x (!y)) :
    d.IsProduct a b.complement op' where
  alphabet_eq := h.alphabet_eq
  total := h.total
  numbered := h.numbered
  same_iff := by simpa only [run?_complement] using h.same_iff
  accepts_eq w hw := by
    rw [h.accepts_eq w hw, accepts_complement_eq hb (hab ▸ hw), hop]

/-- The complement of a product is the product of the complements under the dual combination. -/
theorem complement (h : d.IsProduct a b op) (ha : a.isTotal = true) (hb : b.isTotal = true)
    (hab : a.alphabet = b.alphabet) (hop : ∀ x y, (!op.accepts x y) = op'.accepts (!x) (!y)) :
    d.complement.IsProduct a.complement b.complement op' where
  alphabet_eq := h.alphabet_eq
  total := (isTotal_complement d).trans h.total
  numbered := by simpa only [size_complement] using h.numbered.complement
  same_iff := by simpa only [alphabet_complement, run?_complement] using h.same_iff
  accepts_eq w hw := by
    rw [accepts_complement_eq h.total (h.alphabet_eq ▸ hw), h.accepts_eq w hw,
      accepts_complement_eq ha hw, accepts_complement_eq hb (hab ▸ hw), hop]

/-- The operands of a product may change places if the combination does not tell them apart. -/
theorem swap (h : d.IsProduct a b op) (hab : a.alphabet = b.alphabet)
    (hop : ∀ x y, op.accepts x y = op.accepts y x) : d.IsProduct b a op where
  alphabet_eq := h.alphabet_eq.trans hab
  total := h.total
  numbered := h.numbered
  same_iff u v hu hv := by
    rw [h.same_iff u v (hab ▸ hu) (hab ▸ hv), and_comm]
  accepts_eq w hw := by
    rw [h.accepts_eq w (hab ▸ hw), hop]

/-- Three operands may be grouped either way if the combination may. -/
theorem assoc (h : d.IsProduct ab c op) (hleft : ab.IsProduct a b op)
    (hright : bc.IsProduct b c op) (hab : a.alphabet = b.alphabet)
    (hop : ∀ x y z, op.accepts (op.accepts x y) z = op.accepts x (op.accepts y z)) :
    d.IsProduct a bc op where
  alphabet_eq := h.alphabet_eq.trans hleft.alphabet_eq
  total := h.total
  numbered := h.numbered
  same_iff u v hu hv := by
    rw [h.same_iff u v (hleft.alphabet_eq ▸ hu) (hleft.alphabet_eq ▸ hv), hleft.same_iff u v hu hv,
      hright.same_iff u v (hab ▸ hu) (hab ▸ hv), and_assoc]
  accepts_eq w hw := by
    rw [h.accepts_eq w (hleft.alphabet_eq ▸ hw), hleft.accepts_eq w hw,
      hright.accepts_eq w (hab ▸ hw), hop]

end IsProduct

/-! ## The laws -/

/-- Without a budget there is a product. -/
theorem exists_isProduct (op : Combination) (ha : a.isTotal = true) (hb : b.isTotal = true)
    (hab : a.alphabet = b.alphabet) : ∃ d, a.product b op {} = .ok d ∧ d.IsProduct a b op := by
  obtain ⟨d, hd⟩ := exists_product op ha hb hab (show Limits.productStates {} = none from rfl)
  exact ⟨d, hd, isProduct_product ha hb hab hd⟩

/-- For total automata over one alphabet and without a budget, these results are equal as automata:
the difference and the intersection with the complement; the complement of the union and the
intersection of the complements; for all combinations but the difference, the products of two
operands in either order and of three operands in either grouping; and the complement of the
complement and the automaton itself. -/
theorem product_laws (ha : a.isTotal = true) (hb : b.isTotal = true) (hc : c.isTotal = true)
    (hab : a.alphabet = b.alphabet) (hbc : b.alphabet = c.alphabet) :
    (∃ d, a.product b .difference {} = .ok d ∧
      a.product b.complement .intersection {} = .ok d) ∧
    (∃ d, a.product b .union {} = .ok d ∧
      a.complement.product b.complement .intersection {} = .ok d.complement) ∧
    (∀ op, op ≠ .difference →
      (∃ d, a.product b op {} = .ok d ∧ b.product a op {} = .ok d) ∧
      ∃ ab bc d, a.product b op {} = .ok ab ∧ b.product c op {} = .ok bc ∧
        ab.product c op {} = .ok d ∧ a.product bc op {} = .ok d) ∧
    a.complement.complement = a := by
  have ha' : a.complement.isTotal = true := (isTotal_complement a).trans ha
  have hb' : b.complement.isTotal = true := (isTotal_complement b).trans hb
  refine ⟨?_, ?_, fun op hop => ⟨?_, ?_⟩, complement_complement a⟩
  · obtain ⟨d, hd, h⟩ := exists_isProduct .difference ha hb hab
    refine ⟨d, hd, (product_eq_ok_iff_isProduct ha hb' hab rfl).2 ?_⟩
    exact h.complement_right hb hab fun _ _ => rfl
  · obtain ⟨d, hd, h⟩ := exists_isProduct .union ha hb hab
    refine ⟨d, hd, (product_eq_ok_iff_isProduct ha' hb' hab rfl).2 ?_⟩
    exact h.complement ha hb hab Bool.not_or
  · obtain ⟨d, hd, h⟩ := exists_isProduct op ha hb hab
    refine ⟨d, hd, (product_eq_ok_iff_isProduct hb ha hab.symm rfl).2 ?_⟩
    exact h.swap hab (Combination.accepts_comm hop)
  · obtain ⟨ab, hab', hleft⟩ := exists_isProduct op ha hb hab
    obtain ⟨bc, hbc', hright⟩ := exists_isProduct op hb hc hbc
    have habc : ab.alphabet = c.alphabet := hleft.alphabet_eq.trans (hab.trans hbc)
    obtain ⟨d, hd, h⟩ := exists_isProduct op hleft.total hc habc
    have halphabet : a.alphabet = bc.alphabet := hab.trans hright.alphabet_eq.symm
    refine ⟨ab, bc, d, hab', hbc', hd,
      (product_eq_ok_iff_isProduct ha hright.total halphabet rfl).2 ?_⟩
    exact h.assoc hleft hright hab (Combination.accepts_assoc hop)

/-- The union of the words with an odd number of `a`, those that end with `b` and those that do not,
in either grouping. The states of the inner products differ, those of the outer ones do not. -/
theorem product_laws_three :
    oddCount.isTotal = true ∧ endsWithB.isTotal = true ∧ endsWithB.complement.isTotal = true ∧
      oddCount.alphabet = endsWithB.alphabet ∧
      endsWithB.alphabet = endsWithB.complement.alphabet ∧
      Combination.union ≠ .difference ∧
      ∃ ab bc d, oddCount.product endsWithB .union {} = .ok ab ∧
        endsWithB.product endsWithB.complement .union {} = .ok bc ∧ ab.size = 4 ∧ bc.size = 2 ∧
        ab.product endsWithB.complement .union {} = .ok d ∧
        oddCount.product bc .union {} = .ok d := by
  have hodd : oddCount.isTotal = true := by decide +kernel
  have hends : endsWithB.isTotal = true := by decide +kernel
  have hends' : endsWithB.complement.isTotal = true := by decide +kernel
  have hlaws := @product_laws oddCount endsWithB endsWithB.complement hodd hends hends' rfl rfl
  obtain ⟨ab, bc, d, hab, hbc, hd, hd'⟩ := (hlaws.2.2.1 .union nofun).2
  have hleft : oddCount.product endsWithB .union {} = .ok ⟨.ofList ['a', 'b'], 0,
      #[⟨false, [1, 2]⟩, ⟨true, [0, 3]⟩, ⟨true, [1, 2]⟩, ⟨true, [0, 3]⟩]⟩ := by decide +kernel
  have hright : endsWithB.product endsWithB.complement .union {} = .ok ⟨.ofList ['a', 'b'], 0,
      #[⟨true, [0, 1]⟩, ⟨true, [0, 1]⟩]⟩ := by decide +kernel
  obtain rfl := Except.ok.inj (hleft.symm.trans hab)
  obtain rfl := Except.ok.inj (hright.symm.trans hbc)
  exact ⟨hodd, hends, hends', rfl, rfl, nofun, _, _, d, hab, hbc, rfl, rfl, hd, hd'⟩

end Dfa

end RegexEquiv
