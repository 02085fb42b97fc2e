/-!
# Intervals of characters

`interval lo hi` lists the characters from `lo` to `hi` by code point. Code points that are no
characters (the surrogates) are passed over. `mem_interval` gives the members and
`pairwise_interval` the order.
-/

namespace RegexEquiv.Text

/-- The character with a given code point, if there is one. -/
def char? (n : Nat) : Option Char :=
  if h : n.isValidChar then some (Char.ofNatAux n h) else none

/-- The characters from `lo` to `hi` in increasing order. -/
def interval (lo hi : Char) : List Char :=
  (List.range' lo.toNat (hi.toNat + 1 - lo.toNat)).filterMap char?

theorem char?_eq_some_iff {n : Nat} {c : Char} : char? n = some c ↔ c.toNat = n := by
  rw [char?]
  constructor
  · intro h
    by_cases hvalid : n.isValidChar
    · rw [dif_pos hvalid] at h
      rw [← Option.some.inj h]
      rfl
    · rw [dif_neg hvalid] at h
      cases h
  · rintro rfl
    have hvalid : c.toNat.isValidChar := c.valid
    rw [dif_pos hvalid]
    exact congrArg some (Char.toNat_inj.1 rfl)

/-- An interval holds exactly the characters between its ends. -/
@[simp]
theorem mem_interval {lo hi c : Char} : c ∈ interval lo hi ↔ lo ≤ c ∧ c ≤ hi := by
  have hle : ∀ a b : Char, a ≤ b ↔ a.toNat ≤ b.toNat := fun _ _ => UInt32.le_iff_toNat_le
  simp only [interval, List.mem_filterMap, char?_eq_some_iff, List.mem_range'_1, hle]
  constructor
  · rintro ⟨n, hn, rfl⟩
    omega
  · intro h
    exact ⟨c.toNat, by omega, rfl⟩

/-- An interval is listed in strictly increasing order. -/
theorem pairwise_interval (lo hi : Char) : (interval lo hi).Pairwise (· < ·) := by
  refine List.Pairwise.filterMap char? ?_ List.pairwise_lt_range'
  intro m n hmn a ha b hb
  rw [char?_eq_some_iff] at ha hb
  subst ha hb
  exact UInt32.lt_iff_toNat_lt.2 hmn

end RegexEquiv.Text
