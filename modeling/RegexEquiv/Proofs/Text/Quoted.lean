import RegexEquiv.Proofs.Text.Code
import RegexEquiv.Text.Quoted

/-!
# Quoted text can be read back

Between quotes every character has a spelling of its own, and no spelling begins with the quote. So
a quoted character says which character it quotes and where it ends (`selfDelimiting_quotedChar`),
and so does a quoted text (`selfDelimiting_quoted`).
-/

namespace RegexEquiv.Text

/-- The characters that are spelled with a letter behind a backslash. -/
def letters (quote : Char) : List (Char × Char) :=
  [('\x00', '0'), ('\t', 't'), ('\n', 'n'), ('\r', 'r'), ('\\', '\\'), (quote, quote)]

theorem selfDelimiting_codePoint : SelfDelimiting codePoint := by
  intro c d x y h
  simp only [codePoint, List.cons_append, List.nil_append, List.append_assoc, List.cons.injEq,
    true_and] at h
  have hbrace : ∀ k, Nat.digitChar k ≠ '}' := fun k => Nat.digitChar_ne '}' rfl
  obtain ⟨hcode, -, hxy⟩ :=
    toDigits_append_cons_inj (by omega) (Nat.le_refl 16) hbrace hbrace h
  exact ⟨Char.toNat_inj.1 hcode, hxy⟩

section Escape

variable {quote : Char} (hquotes : quote = '"' ∨ quote = '\'')
include hquotes

/-- How a character can be spelled between quotes. -/
theorem escape_cases (c : Char) :
    (∃ letter, (c, letter) ∈ letters quote ∧ escape quote c = ['\\', letter]) ∨
      escape quote c = codePoint c ∨ (c ≠ '\\' ∧ c ≠ quote ∧ escape quote c = [c]) := by
  by_cases hmem : ∃ p ∈ letters quote, p.1 = c
  · obtain ⟨⟨c, letter⟩, hletter, rfl⟩ := hmem
    have hescape : ∀ p ∈ letters quote, escape quote p.1 = ['\\', p.2] := by
      rcases hquotes with rfl | rfl <;> decide
    exact .inl ⟨letter, hletter, hescape _ hletter⟩
  · have hne : ∀ p ∈ letters quote, c ≠ p.1 := fun p hp hc => hmem ⟨p, hp, hc.symm⟩
    simp only [letters, List.forall_mem_cons] at hne
    obtain ⟨hnull, htab, hnewline, hreturn, hslash, hquote, -⟩ := hne
    right
    rw [escape, if_neg hnull, if_neg htab, if_neg hnewline, if_neg hreturn,
      if_neg (not_or.2 ⟨hslash, hquote⟩)]
    split
    · exact .inl rfl
    · exact .inr ⟨hslash, hquote, rfl⟩

/-- Between quotes every character has a spelling of its own. -/
theorem selfDelimiting_escape : SelfDelimiting (escape quote) := by
  have hletters : ∀ p ∈ letters quote, ∀ q ∈ letters quote, p.2 = q.2 → p.1 = q.1 := by
    rcases hquotes with rfl | rfl <;> decide
  have hu : ∀ p ∈ letters quote, p.2 ≠ 'u' := by
    rcases hquotes with rfl | rfl <;> decide
  intro c d x y h
  obtain ⟨letter, hmem, hc⟩ | hc | ⟨hslash, -, hc⟩ := escape_cases hquotes c
  · obtain ⟨letter', hmem', hd⟩ | hd | ⟨hslash, -, hd⟩ := escape_cases hquotes d
    · rw [hc, hd] at h
      obtain ⟨rfl, hxy⟩ := List.cons.inj (List.cons.inj h).2
      exact ⟨hletters _ hmem _ hmem' rfl, hxy⟩
    · rw [hc, hd] at h
      exact absurd (List.cons.inj (List.cons.inj h).2).1 (hu _ hmem)
    · rw [hc, hd] at h
      exact absurd (List.cons.inj h).1.symm hslash
  · obtain ⟨letter, hmem, hd⟩ | hd | ⟨hslash, -, hd⟩ := escape_cases hquotes d
    · rw [hc, hd] at h
      exact absurd (List.cons.inj (List.cons.inj h).2).1.symm (hu _ hmem)
    · rw [hc, hd] at h
      exact selfDelimiting_codePoint h
    · rw [hc, hd] at h
      exact absurd (List.cons.inj h).1.symm hslash
  · obtain ⟨letter, hmem, hd⟩ | hd | ⟨-, -, hd⟩ := escape_cases hquotes d
    · rw [hc, hd] at h
      exact absurd (List.cons.inj h).1 hslash
    · rw [hc, hd] at h
      exact absurd (List.cons.inj h).1 hslash
    · rw [hc, hd] at h
      exact List.cons.inj h

/-- Between quotes no spelling begins with the quote. -/
theorem escape_append_ne (c : Char) (x y : List Char) : escape quote c ++ x ≠ quote :: y := by
  have hslash : '\\' ≠ quote := by
    rcases hquotes with rfl | rfl <;> decide
  intro h
  obtain ⟨letter, -, hc⟩ | hc | ⟨-, hquote, hc⟩ := escape_cases hquotes c
  · rw [hc] at h
    exact hslash (List.cons.inj h).1
  · rw [hc] at h
    exact hslash (List.cons.inj h).1
  · rw [hc] at h
    exact hquote (List.cons.inj h).1

end Escape

/-- A quoted character says which character it quotes and where it ends. -/
theorem selfDelimiting_quotedChar : SelfDelimiting quotedChar := by
  intro c d x y h
  simp only [quotedChar, List.cons_append, List.append_assoc, List.nil_append] at h
  obtain ⟨rfl, hrest⟩ := selfDelimiting_escape (.inr rfl) (List.cons.inj h).2
  exact ⟨rfl, (List.cons.inj hrest).2⟩

/-- A quoted text says which text it quotes and where it ends. -/
theorem selfDelimiting_quoted : SelfDelimiting quoted := by
  intro text text' x y h
  simp only [quoted, List.cons_append, List.append_assoc, List.nil_append] at h
  exact (selfDelimiting_escape (.inl rfl)).flatMap_append_cons_inj (escape_append_ne (.inl rfl))
    (List.cons.inj h).2

end RegexEquiv.Text
