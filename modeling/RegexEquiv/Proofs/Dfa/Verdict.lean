import RegexEquiv.Dfa.Verdict
import RegexEquiv.Proofs.Dfa.Witness
import RegexEquiv.Proofs.Except

/-!
# What a comparison of two automata decides

A verdict is right about two languages when it says that they are equal and they are, or when it
names the least word on which they differ and the side that has this word (`Verdict.Decides`). The
comparison of two total automata over one alphabet ends with the right verdict
(`Dfa.exists_verdict`), and the test of inclusion with the least word that is in the first language
only (`Dfa.exists_inclusionWitness`).
-/

namespace RegexEquiv

namespace Verdict

/-- The verdict is right about two languages. -/
def Decides (left right : Word → Prop) : Verdict → Prop
  | equivalent => ∀ w, left w ↔ right w
  | different w side => Word.Least (fun u => ¬ (left u ↔ right u)) w ∧
      (side = .left ↔ left w) ∧ (side = .right ↔ right w)

variable {left right : Word → Prop} {v : Verdict}

/-- A right verdict is that of equality exactly when the languages are equal. -/
theorem Decides.eq_equivalent_iff (h : v.Decides left right) :
    v = .equivalent ↔ ∀ w, left w ↔ right w := by
  cases v with
  | equivalent => exact ⟨fun _ => h, fun _ => rfl⟩
  | different w side => exact ⟨nofun, fun hequal => absurd (hequal w) h.1.1⟩

/-- A right verdict tells two languages apart by the least word on which they differ and by the
side that has it. -/
theorem Decides.eq_different_iff (h : v.Decides left right) {w : Word} {side : Side} :
    v = .different w side ↔ Word.Least (fun u => ¬ (left u ↔ right u)) w ∧
      (side = .left ↔ left w) ∧ (side = .right ↔ right w) := by
  constructor
  · intro hv
    subst hv
    exact h
  · intro hw
    cases v with
    | equivalent => exact absurd (h w) hw.1.1
    | different u other =>
        obtain rfl := Word.Least.unique h.1 hw.1
        have hside : other = .left ↔ side = .left := h.2.1.trans hw.2.1.symm
        cases side <;> cases other <;> simp_all

/-- Two languages have one right verdict. -/
theorem Decides.unique {v' : Verdict} (h : v.Decides left right) (h' : v'.Decides left right) :
    v = v' := by
  cases v with
  | equivalent => exact (h'.eq_equivalent_iff.2 h).symm
  | different w side => exact (h'.eq_different_iff.2 h).symm

end Verdict

namespace Dfa

variable {a b : Dfa} {limits : Limits}

/-- Two automata differ on words over the alphabet only: they accept no others. -/
theorem meets_symmetricDifference_iff (hab : a.alphabet = b.alphabet) {w : Word} :
    a.Meets b Combination.symmetricDifference.accepts w ↔
      ¬ (a.accepts w = true ↔ b.accepts w = true) := by
  show Word.Over a.alphabet w ∧ (a.accepts w != b.accepts w) = true ↔ _
  rw [bne_iff_ne, Ne, Bool.eq_iff_iff, and_iff_right_iff_imp]
  intro hne
  by_cases hacc : a.accepts w = true
  · exact over_of_accepts hacc
  · by_cases hacc' : b.accepts w = true
    · exact hab ▸ over_of_accepts hacc'
    · exact absurd (iff_of_false hacc hacc') hne

theorem meets_difference_iff {w : Word} :
    a.Meets b Combination.difference.accepts w ↔ a.accepts w = true ∧ ¬ b.accepts w = true := by
  show Word.Over a.alphabet w ∧ (a.accepts w && !b.accepts w) = true ↔ _
  rw [Bool.and_eq_true, Bool.not_eq_true', Bool.not_eq_true, and_iff_right_iff_imp]
  intro hw
  exact over_of_accepts hw.1

/-- Of two different answers, the first tells which one is positive. -/
theorem side_iff {x y : Bool} (hne : ¬ (x = true ↔ y = true)) :
    ((if x then Side.left else .right) = .left ↔ x = true) ∧
      ((if x then Side.left else .right) = .right ↔ y = true) := by
  cases x <;> cases y <;> simp_all

/-- The comparison of two total automata ends with the right verdict about their languages. -/
theorem exists_verdict (ha : a.isTotal = true) (hb : b.isTotal = true)
    (hab : a.alphabet = b.alphabet) (hlimits : limits.productStates = none) :
    ∃ v, a.verdict b limits = .ok v ∧
      v.Decides (fun w => a.accepts w = true) (fun w => b.accepts w = true) := by
  obtain ⟨answer, hanswer, hleast⟩ :=
    exists_findWitness Combination.symmetricDifference.accepts ha hb hab hlimits
  have hleast := hleast.congr fun w => meets_symmetricDifference_iff hab
  unfold verdict
  rw [hanswer]
  cases answer with
  | none => exact ⟨.equivalent, rfl, fun w => not_not.1 (hleast w)⟩
  | some w => exact ⟨_, rfl, hleast, side_iff hleast.1⟩

/-- The test of inclusion ends with the least word that is in the first language only. -/
theorem exists_inclusionWitness (ha : a.isTotal = true) (hb : b.isTotal = true)
    (hab : a.alphabet = b.alphabet) (hlimits : limits.productStates = none) :
    ∃ answer, a.inclusionWitness b limits = .ok answer ∧
      Word.LeastIfAny (fun w => a.accepts w = true ∧ ¬ b.accepts w = true) answer := by
  obtain ⟨answer, hanswer, hleast⟩ :=
    exists_findWitness Combination.difference.accepts ha hb hab hlimits
  exact ⟨answer, hanswer, hleast.congr fun w => meets_difference_iff⟩

end Dfa

end RegexEquiv
