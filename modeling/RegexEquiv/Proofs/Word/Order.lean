import RegexEquiv.Alphabet
import RegexEquiv.Word

/-!
# Words that grow by one symbol

A breadth-first search lengthens words at their end. `Before.concat` and `before_concat_of_lt` say
that the order of words survives a symbol at the end of each, so words that are lengthened in order
stay in order. `NoLater` is the order with equality. `LeastIfAny` is what a search for a least word
has to answer; the condition leaves it no choice (`LeastIfAny.eq_some_iff`).
-/

namespace RegexEquiv.Word

/-- All symbols of a word are in an alphabet. -/
def Over (alphabet : Alphabet) (w : Word) : Prop := ∀ c ∈ w, c ∈ alphabet

/-- `NoLater u v` says that `u` comes before `v` or is `v`. -/
def NoLater (u v : Word) : Prop := u = v ∨ Before u v

/-- `LeastIfAny p answer` says that `answer` is the least word that meets `p`, or none if no word
does. -/
def LeastIfAny (p : Word → Prop) : Option Word → Prop
  | none => ∀ w, ¬ p w
  | some w => Least p w

@[simp]
theorem over_nil (alphabet : Alphabet) : Over alphabet [] := nofun

@[simp]
theorem over_concat_iff {alphabet : Alphabet} {w : Word} {c : Char} :
    Over alphabet (w ++ [c]) ↔ Over alphabet w ∧ c ∈ alphabet := by
  simp only [Over, List.mem_append, List.mem_singleton]
  constructor
  · intro h
    exact ⟨fun d hd => h d (.inl hd), h c (.inr rfl)⟩
  · intro h d hd
    obtain ⟨hw, hc⟩ := h
    rcases hd with hd | rfl
    · exact hw d hd
    · exact hc

/-! ## The order under one more symbol -/

/-- Of two words of one length, the smaller stays smaller whatever symbols follow. -/
theorem lt_concat_of_lt {u v : Word} (hlen : u.length = v.length) (h : u < v) (c d : Char) :
    u ++ [c] < v ++ [d] := by
  induction u generalizing v with
  | nil =>
      obtain rfl : v = [] := List.length_eq_zero_iff.1 hlen.symm
      exact absurd h (List.lt_irrefl _)
  | cons x u ih =>
      obtain _ | ⟨y, v⟩ := v
      · simp at hlen
      · simp only [List.cons_append, List.cons_lt_cons_iff] at h ⊢
        obtain h | ⟨rfl, h⟩ := h
        · exact .inl h
        · exact .inr ⟨rfl, ih (by simpa using hlen) h⟩

/-- Words in order stay in order whatever symbols follow. -/
theorem Before.concat {u v : Word} (h : Before u v) (c d : Char) :
    Before (u ++ [c]) (v ++ [d]) := by
  obtain hlen | ⟨hlen, hlt⟩ := h
  · exact .inl (by simpa using hlen)
  · exact .inr ⟨by simpa using hlen, lt_concat_of_lt hlen hlt c d⟩

/-- One word with two symbols behind it: the symbols decide. -/
theorem before_concat_of_lt (w : Word) {c d : Char} (h : c < d) :
    Before (w ++ [c]) (w ++ [d]) := by
  refine .inr ⟨by simp, ?_⟩
  induction w with
  | nil => exact List.cons_lt_cons_iff.2 (.inl h)
  | cons x w ih => exact List.cons_lt_cons_iff.2 (.inr ⟨rfl, ih⟩)

/-- A word comes before its own extension. -/
theorem before_concat (w : Word) (c : Char) : Before w (w ++ [c]) := .inl (by simp)

/-! ## The order with equality -/

theorem NoLater.refl (w : Word) : NoLater w w := .inl rfl

theorem NoLater.trans {u v w : Word} (huv : NoLater u v) (hvw : NoLater v w) : NoLater u w := by
  obtain rfl | huv := huv
  · exact hvw
  · obtain rfl | hvw := hvw
    · exact .inr huv
    · exact .inr (huv.trans hvw)

/-- Of two words that come no later than each other neither comes first. -/
theorem NoLater.antisymm {u v : Word} (huv : NoLater u v) (hvu : NoLater v u) : u = v := by
  obtain rfl | huv := huv
  · rfl
  · obtain rfl | hvu := hvu
    · rfl
    · exact absurd (huv.trans hvu) (before_irrefl u)

/-- Words in order stay in order with the same symbol behind both. -/
theorem NoLater.concat {u v : Word} (h : NoLater u v) (c : Char) :
    NoLater (u ++ [c]) (v ++ [c]) := by
  obtain rfl | h := h
  · exact .refl _
  · exact .inr (h.concat c c)

/-- A word that comes no later than all that meet a condition, and meets it, is the least. -/
theorem Least.of_noLater {p : Word → Prop} {w : Word} (hw : p w) (h : ∀ u, p u → NoLater w u) :
    Least p w := by
  refine ⟨hw, fun u hu hne => ?_⟩
  obtain rfl | hbefore := h u hu
  · exact absurd rfl hne
  · exact hbefore

/-- The empty word is the least of any words to which it belongs. -/
theorem least_nil {p : Word → Prop} (h : p []) : Least p [] :=
  ⟨h, fun _ _ hne => .inl (List.length_pos_iff.2 hne)⟩

/-- A least word stays the least under a narrower condition that it still meets. -/
theorem Least.narrow {p q : Word → Prop} {w : Word} (h : Least p w) (hw : q w)
    (hpq : ∀ u, q u → p u) : Least q w :=
  ⟨hw, fun u hu hne => h.2 u (hpq u hu) hne⟩

/-- The least word that meets one of two conditions is the smaller of the least words of the two. -/
theorem Least.of_or {p q : Word → Prop} {w : Word} (h : Least (fun u => p u ∨ q u) w) :
    Least (fun u => Least p u ∨ Least q u) w := by
  refine h.narrow ?_ fun u hu => hu.imp And.left And.left
  obtain hw | hw := h.1
  · exact .inl (h.narrow hw fun _ => .inl)
  · exact .inr (h.narrow hw fun _ => .inr)

/-! ## The answer of a search for a least word -/

/-- Conditions that agree on every word have the same answer. -/
theorem LeastIfAny.congr {p q : Word → Prop} {answer : Option Word} (hpq : ∀ w, p w ↔ q w)
    (h : LeastIfAny p answer) : LeastIfAny q answer := by
  cases answer with
  | none => exact fun w hw => h w ((hpq w).2 hw)
  | some w => exact ⟨(hpq w).1 h.1, fun u hu hne => h.2 u ((hpq u).2 hu) hne⟩

theorem LeastIfAny.eq_none_iff {p : Word → Prop} {answer : Option Word} (h : LeastIfAny p answer) :
    answer = none ↔ ∀ w, ¬ p w := by
  cases answer with
  | none => exact ⟨fun _ => h, fun _ => rfl⟩
  | some w => exact ⟨nofun, fun hnone => absurd h.1 (hnone w)⟩

/-- The answer is a word exactly when that word is the least. -/
theorem LeastIfAny.eq_some_iff {p : Word → Prop} {answer : Option Word} (h : LeastIfAny p answer)
    {w : Word} : answer = some w ↔ Least p w := by
  cases answer with
  | none => exact ⟨nofun, fun hw => absurd hw.1 (h w)⟩
  | some u =>
      constructor
      · intro heq
        exact Option.some.inj heq ▸ h
      · intro hw
        rw [Least.unique h hw]

/-- A condition has one answer. -/
theorem LeastIfAny.unique {p : Word → Prop} {answer answer' : Option Word}
    (h : LeastIfAny p answer) (h' : LeastIfAny p answer') : answer = answer' := by
  cases answer with
  | none => exact (h'.eq_none_iff.2 h).symm
  | some w => exact (h'.eq_some_iff.2 h).symm

end RegexEquiv.Word
