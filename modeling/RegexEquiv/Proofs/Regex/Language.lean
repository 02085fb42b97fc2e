import Mathlib.Computability.Language
import RegexEquiv.Regex.Build

/-!
# Expressions as languages

The words of an expression form a language, `Regex.language`, and every constructor is an operation
of the Kleene algebra of languages. In that algebra the rewriting that goes on while a pattern is
read can be checked by calculation. A balanced chain is the product of its factors
(`language_balanced_cat`) or the sum of its alternatives (`language_balanced_alt`). A quantifier
that collapses with the one below it still means both, one after the other (`language_apply`).
-/

namespace RegexEquiv

open Computability

namespace Regex

/-- The language of an expression. -/
def language (r : Regex) : Language Char := {w : Word | r.Matches w}

theorem mem_language {r : Regex} {w : Word} : w ∈ r.language ↔ r.Matches w := Iff.rfl

/-! ## One operation for each constructor -/

@[simp]
theorem language_empty : empty.language = 0 :=
  Language.ext fun w => iff_of_false (not_matches_empty w) (Language.notMem_zero w)

@[simp]
theorem language_epsilon : epsilon.language = 1 :=
  Language.ext fun _ => matches_epsilon_iff

@[simp]
theorem language_symbol (c : Char) : (symbol c).language = {[c]} :=
  Language.ext fun _ => matches_symbol_iff

@[simp]
theorem language_cat (left right : Regex) :
    (cat left right).language = left.language * right.language := by
  ext w
  rw [mem_language, matches_cat_iff, Language.mem_mul]
  constructor
  · rintro ⟨u, v, rfl, hu, hv⟩
    exact ⟨u, hu, v, hv, rfl⟩
  · rintro ⟨u, hu, v, hv, rfl⟩
    exact ⟨u, v, rfl, hu, hv⟩

@[simp]
theorem language_alt (left right : Regex) :
    (alt left right).language = left.language + right.language :=
  Language.ext fun _ => matches_alt_iff

@[simp]
theorem language_star (inner : Regex) : (star inner).language = inner.language∗ := by
  ext w
  rw [mem_language, Language.mem_kstar]
  constructor
  · intro h
    generalize hr : star inner = r at h
    induction h with
    | starNil => exact ⟨[], rfl, nofun⟩
    | @starAppend _ u _ hu _ _ ih =>
        obtain ⟨rounds, rfl, hrounds⟩ := ih hr
        obtain rfl := star.inj hr
        exact ⟨u :: rounds, rfl, List.forall_mem_cons.2 ⟨hu, hrounds⟩⟩
    | _ => cases hr
  · rintro ⟨rounds, rfl, hrounds⟩
    induction rounds with
    | nil => exact .starNil
    | cons u rounds ih =>
        obtain ⟨hu, hrounds⟩ := List.forall_mem_cons.1 hrounds
        exact .starAppend hu (ih hrounds)

@[simp]
theorem language_plus (inner : Regex) :
    (plus inner).language = inner.language * inner.language∗ := by
  rw [← language_star, ← language_cat]
  exact Language.ext fun w => matches_plus_iff.trans matches_cat_iff.symm

/-! ## Chains -/

/-- A chain as a tree that leans to the right. The chain without members is `unit`. -/
def chain (join : Regex → Regex → Regex) (unit : Regex) : List Regex → Regex
  | [] => unit
  | [r] => r
  | r :: s :: rest => join r (chain join unit (s :: rest))

section Chains

variable {α : Type} {join : Regex → Regex → Regex} {unit : Regex} {f : Regex → α}
  {op : α → α → α} {e : α} [Std.Associative op] [Std.LawfulIdentity op e]

variable (op e) in
/-- An associative operation with an identity, applied along a chain, can be applied to two parts of
the chain. -/
theorem foldr_append_eq (l m : List α) :
    (l ++ m).foldr op e = op (l.foldr op e) (m.foldr op e) := by
  have hleft : op e (m.foldr op e) = m.foldr op e := Std.LawfulLeftIdentity.left_id _
  have hhalves : l.foldr op (op e (m.foldr op e)) = _ := List.foldr_assoc
  rw [← hhalves, hleft, List.foldr_append]

/-- Where joining trees means an associative operation and the unit means its identity, a balanced
tree means the operation along the chain. -/
theorem map_balanced (hunit : f unit = e)
    (hjoin : ∀ left right, f (join left right) = op (f left) (f right)) (rs : List Regex) :
    f (balanced join unit rs) = (rs.map f).foldr op e := by
  fun_induction balanced join unit rs with
  | case1 => exact hunit
  | case2 r => exact (Std.LawfulRightIdentity.right_id (f r)).symm
  | case3 r s rest half ihl ihr =>
      rw [hjoin, ihl, ihr, ← foldr_append_eq op e, ← List.map_append, List.take_append_drop]

omit [Std.Associative op] in
/-- So does a tree that leans to the right. -/
theorem map_chain (hunit : f unit = e)
    (hjoin : ∀ left right, f (join left right) = op (f left) (f right)) (rs : List Regex) :
    f (chain join unit rs) = (rs.map f).foldr op e := by
  fun_induction chain join unit rs with
  | case1 => exact hunit
  | case2 r => exact (Std.LawfulRightIdentity.right_id (f r)).symm
  | case3 r s rest ih =>
      rw [hjoin, ih]
      rfl

end Chains

theorem balanced_single (join : Regex → Regex → Regex) (unit r : Regex) :
    balanced join unit [r] = r := by
  rw [balanced]

theorem balanced_pair (join : Regex → Regex → Regex) (unit r s : Regex) :
    balanced join unit [r, s] = join r s := by
  simp [balanced]

/-- Both halves of a chain that is balanced have members. -/
theorem halves_ne_nil (r s : Regex) (rest : List Regex) :
    (r :: s :: rest).take ((rest.length + 3) / 2) ≠ [] ∧
      (r :: s :: rest).drop ((rest.length + 3) / 2) ≠ [] := by
  constructor
  · intro htake
    have hlen := List.take_eq_nil_iff.1 htake
    simp only [reduceCtorEq, or_false] at hlen
    omega
  · intro hdrop
    have hlen := List.drop_eq_nil_iff.1 hdrop
    simp only [List.length_cons] at hlen
    omega

/-- The unit of a chain with members does not matter. -/
theorem balanced_unit {join : Regex → Regex → Regex} {rs : List Regex} (unit unit' : Regex)
    (h : rs ≠ []) : balanced join unit rs = balanced join unit' rs := by
  fun_induction balanced join unit rs with
  | case1 => exact absurd rfl h
  | case2 r => rw [balanced]
  | case3 r s rest half ihl ihr =>
      obtain ⟨htake, hdrop⟩ := halves_ne_nil r s rest
      rw [balanced, ihl htake, ihr hdrop]

theorem chain_unit {join : Regex → Regex → Regex} {rs : List Regex} (unit unit' : Regex)
    (h : rs ≠ []) : chain join unit rs = chain join unit' rs := by
  fun_induction chain join unit rs with
  | case1 => exact absurd rfl h
  | case2 r => rfl
  | case3 r s rest ih => rw [chain, ih (List.cons_ne_nil s rest)]

/-- The product of the languages of a chain of factors. -/
theorem language_balanced_cat (rs : List Regex) :
    (balanced cat epsilon rs).language = (rs.map language).prod :=
  (map_balanced language_epsilon language_cat rs).trans List.prod_eq_foldr.symm

/-- The sum of the languages of a chain of alternatives. -/
theorem language_balanced_alt (rs : List Regex) :
    (balanced alt empty rs).language = (rs.map language).sum :=
  (map_balanced language_empty language_alt rs).trans List.sum_eq_foldr.symm

theorem language_chain_cat (rs : List Regex) :
    (chain cat epsilon rs).language = (rs.map language).prod :=
  (map_chain language_epsilon language_cat rs).trans List.prod_eq_foldr.symm

theorem language_chain_alt (rs : List Regex) :
    (chain alt empty rs).language = (rs.map language).sum :=
  (map_chain language_empty language_alt rs).trans List.sum_eq_foldr.symm

/-- The sum of the languages of some symbols has the words of one of them. -/
theorem mem_sum_language_symbol {cs : List Char} {w : Word} :
    w ∈ ((cs.map symbol).map language).sum ↔ ∃ c ∈ cs, w = [c] := by
  induction cs with
  | nil => simp
  | cons c cs ih =>
      rw [List.map_cons, List.map_cons, List.sum_cons, Language.mem_add, ih, mem_language,
        matches_symbol_iff, List.exists_mem_cons_iff]

/-! ## Quantifiers -/

end Regex

/-- What a quantifier does to a language. -/
def Quantifier.language : Quantifier → Language Char → Language Char
  | star, l => l∗
  | plus, l => l * l∗
  | optional, l => l + 1

/-- Any number of times at least one round is any number of rounds. -/
theorem kstar_mul_kstar_self (l : Language Char) : (l * l∗)∗ = l∗ := by
  have hround : l ≤ l * l∗ := by
    calc l = l * 1 := (mul_one l).symm
      _ ≤ l * l∗ := mul_le_mul_right one_le_kstar l
  refine le_antisymm ?_ (kstar_mono hround)
  calc (l * l∗)∗ ≤ l∗∗ := kstar_mono mul_kstar_le_kstar
    _ = l∗ := kstar_idem l

namespace Regex

theorem language_repeated (r : Regex) : (repeated r).language = r.language∗ := by
  unfold repeated
  split
  · rw [language_star, kstar_idem]
  · rw [language_star, language_plus, kstar_mul_kstar_self]
  · exact language_star r

theorem language_repeatedOnce (r : Regex) :
    (repeatedOnce r).language = r.language * r.language∗ := by
  unfold repeatedOnce
  split
  · rw [language_star, kstar_idem, kstar_mul_kstar]
  · rw [language_plus, kstar_mul_kstar_self, mul_assoc, kstar_mul_kstar]
  · exact language_plus r

theorem language_optional (r : Regex) : (optional r).language = r.language + 1 := by
  unfold optional
  split
  · rw [language_star]
    exact (add_eq_left_iff_le.2 one_le_kstar).symm
  · rw [language_alt, language_epsilon, add_assoc, add_idem]
  · rw [language_star, language_plus, add_comm, one_add_mul_kstar]
  · rw [language_alt, language_epsilon]

/-- A quantifier means what it does to the language of its operand, whether it collapses or not. -/
theorem language_apply (q : Quantifier) (r : Regex) :
    (q.apply r).language = q.language r.language := by
  cases q with
  | star => exact language_repeated r
  | plus => exact language_repeatedOnce r
  | optional => exact language_optional r

end Regex

end RegexEquiv
