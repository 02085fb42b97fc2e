/-!
# Codes that say where they end

A code is self-delimiting when the text of a value can be told from whatever follows it
(`SelfDelimiting`). Then values written one behind another can be told apart, up to a character with
which no value begins: `SelfDelimiting.flatMap_append_cons_inj`. The digits of a number are not
self-delimiting, but they end at the first character that is no digit
(`toDigits_append_cons_inj`).
-/

namespace RegexEquiv.Text

variable {α : Type} {code : α → List Char} {c d : Char} {x y : List Char}

/-- `SelfDelimiting code` says that the text of a value can be told from what follows it. -/
def SelfDelimiting (code : α → List Char) : Prop :=
  ∀ ⦃a b : α⦄ ⦃x y : List Char⦄, code a ++ x = code b ++ y → a = b ∧ x = y

/-- Values written one behind another are told apart from what follows them, if that begins with a
character with which no value begins. -/
theorem SelfDelimiting.flatMap_append_cons_inj (h : SelfDelimiting code)
    (hstop : ∀ a x y, code a ++ x ≠ c :: y) {as bs : List α}
    (heq : as.flatMap code ++ c :: x = bs.flatMap code ++ c :: y) : as = bs ∧ x = y := by
  induction as generalizing bs with
  | nil =>
      cases bs with
      | nil => exact ⟨rfl, (List.cons.inj heq).2⟩
      | cons b bs =>
          rw [List.flatMap_cons, List.append_assoc] at heq
          exact absurd heq.symm (hstop b _ _)
  | cons a as ih =>
      cases bs with
      | nil =>
          rw [List.flatMap_cons, List.append_assoc] at heq
          exact absurd heq (hstop a _ _)
      | cons b bs =>
          rw [List.flatMap_cons, List.flatMap_cons, List.append_assoc, List.append_assoc] at heq
          obtain ⟨rfl, hrest⟩ := h heq
          obtain ⟨rfl, hxy⟩ := ih hrest
          exact ⟨rfl, hxy⟩

/-! ## Digits -/

/-- Characters of one kind are told apart from what follows them, if that begins with a character
of another kind. -/
theorem append_cons_inj {p : Char → Prop} {front front' : List Char} (hfront : ∀ a ∈ front, p a)
    (hfront' : ∀ a ∈ front', p a) (hc : ¬ p c) (hd : ¬ p d)
    (h : front ++ c :: x = front' ++ d :: y) : front = front' ∧ c = d ∧ x = y := by
  induction front generalizing front' with
  | nil =>
      cases front' with
      | nil => exact ⟨rfl, List.cons.inj h⟩
      | cons a front' =>
          obtain rfl : c = a := (List.cons.inj h).1
          exact absurd (hfront' c List.mem_cons_self) hc
  | cons a front ih =>
      cases front' with
      | nil =>
          obtain rfl : a = d := (List.cons.inj h).1
          exact absurd (hfront a List.mem_cons_self) hd
      | cons b front' =>
          obtain ⟨rfl, hrest⟩ := List.cons.inj h
          obtain ⟨rfl, hends⟩ := ih (List.forall_mem_cons.1 hfront).2
            (List.forall_mem_cons.1 hfront').2 hrest
          exact ⟨rfl, hends⟩

section Digits

variable {base m n : Nat} (hbase : 1 < base)
include hbase

/-- The last digit of a number, and those before it. -/
theorem toDigits_eq_append (n : Nat) : Nat.toDigits base n =
    (if n < base then [] else Nat.toDigits base (n / base)) ++ [(n % base).digitChar] := by
  rw [Nat.toDigits_eq_if hbase]
  split
  · rename_i hn
    rw [Nat.mod_eq_of_lt hn]
    rfl
  · rfl

/-- The characters of a number are digits. -/
theorem exists_digitChar_of_mem_toDigits : ∀ a ∈ Nat.toDigits base n, ∃ k, Nat.digitChar k = a := by
  induction n using Nat.strongRecOn with
  | ind n ih =>
      intro a ha
      rw [toDigits_eq_append hbase, List.mem_append, List.mem_singleton] at ha
      obtain ha | rfl := ha
      · split at ha
        · cases ha
        · exact ih (n / base) (Nat.div_lt_self (by omega) hbase) a ha
      · exact ⟨n % base, rfl⟩

variable (hbase' : base ≤ 16)
include hbase'

/-- A number has its digits for itself. -/
theorem toDigits_injective (h : Nat.toDigits base m = Nat.toDigits base n) : m = n := by
  have hdigit : ∀ i < 16, ∀ j < 16, Nat.digitChar i = Nat.digitChar j → i = j := by decide
  have hlast : ∀ k, k % base < 16 := fun k =>
    Nat.lt_of_lt_of_le (Nat.mod_lt k (Nat.zero_lt_of_lt hbase)) hbase'
  induction m using Nat.strongRecOn generalizing n with
  | ind m ih =>
      rw [toDigits_eq_append hbase m, toDigits_eq_append hbase n] at h
      obtain ⟨hfront, hdigits⟩ := List.append_inj' h rfl
      have hmod : m % base = n % base :=
        hdigit _ (hlast m) _ (hlast n) (List.cons.inj hdigits).1
      split at hfront <;> split at hfront
      · rename_i hm hn
        rwa [Nat.mod_eq_of_lt hm, Nat.mod_eq_of_lt hn] at hmod
      · exact absurd hfront.symm Nat.toDigits_ne_nil
      · exact absurd hfront Nat.toDigits_ne_nil
      · have hdiv : m / base = n / base := ih (m / base) (Nat.div_lt_self (by omega) hbase) hfront
        rw [← Nat.div_add_mod m base, ← Nat.div_add_mod n base, hdiv, hmod]

/-- A number is told apart from what follows it, if that does not begin with a digit. -/
theorem toDigits_append_cons_inj (hc : ∀ k, Nat.digitChar k ≠ c) (hd : ∀ k, Nat.digitChar k ≠ d)
    (h : Nat.toDigits base m ++ c :: x = Nat.toDigits base n ++ d :: y) :
    m = n ∧ c = d ∧ x = y := by
  obtain ⟨hdigits, hends⟩ := append_cons_inj (exists_digitChar_of_mem_toDigits hbase)
    (exists_digitChar_of_mem_toDigits hbase) (not_exists.2 hc) (not_exists.2 hd) h
  exact ⟨toDigits_injective hbase hbase' hdigits, hends⟩

end Digits

end RegexEquiv.Text
