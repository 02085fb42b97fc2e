/-!
# Words and their order

Words are compared by length first, and words of one length by the first symbol in which they
differ. No word comes before itself, so a condition has at most one least word
(`Word.Least.unique`).
-/

namespace RegexEquiv

/-- A word over any characters. -/
abbrev Word := List Char

namespace Word

/-- `Before u v` says that `u` is shorter than `v`, or as long and smaller in the first symbol in
which the two differ. -/
def Before (u v : Word) : Prop := u.length < v.length ∨ u.length = v.length ∧ u < v

/-- `Least p w` says that `w` meets the condition `p` and comes before all other words that do. -/
def Least (p : Word → Prop) (w : Word) : Prop := p w ∧ ∀ u, p u → u ≠ w → Before w u

/-- No word comes before itself. -/
theorem before_irrefl (w : Word) : ¬ Before w w := by
  rintro (h | ⟨-, h⟩)
  · omega
  · exact List.lt_irrefl w h

theorem Before.trans {u v w : Word} (huv : Before u v) (hvw : Before v w) : Before u w := by
  rcases huv with huv | ⟨hlen, huv⟩
  · rcases hvw with hvw | ⟨hlen, -⟩
    · exact .inl (by omega)
    · exact .inl (by omega)
  · rcases hvw with hvw | ⟨hlen', hvw⟩
    · exact .inl (by omega)
    · exact .inr ⟨by omega, List.lt_trans huv hvw⟩

/-- A condition has at most one least word. -/
theorem Least.unique {p : Word → Prop} {u v : Word} (hu : Least p u) (hv : Least p v) : u = v := by
  by_cases h : u = v
  · exact h
  · exact absurd ((hu.2 v hv.1 (Ne.symm h)).trans (hv.2 u hu.1 h)) (before_irrefl u)

end Word

end RegexEquiv
