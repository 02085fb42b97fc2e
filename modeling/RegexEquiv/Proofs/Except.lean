/-!
# Computations that succeed

A chain of computations succeeds when each of its links does, and a fold that succeeds is a chain
of steps that do. These lemmas take such a result apart, link by link (`Except.bind_eq_ok_iff`), and
carry a property through a fold (`Except.foldlM_keeps`). A fold fails where its first failing step
does (`Except.foldlM_eq_error_iff`), and a list of computations where the first failing one does
(`Except.mapM_eq_error_iff`).

Two folds correspond when their steps do: translating states and errors of one step of the first
gives a step of the second (`Except.foldlM_translate`).

Two computations agree up to some errors when the first can only differ from the second by failing
with one of them (`Except.Agrees`). Chains and folds of computations that agree agree.
-/

namespace Except

variable {ε ε' α β : Type}

/-- A chain gives a result exactly when its first link gives a value from which the rest gives
that result. -/
theorem bind_eq_ok_iff {x : Except ε α} {f : α → Except ε β} {b : β} :
    (x >>= f) = .ok b ↔ ∃ a, x = .ok a ∧ f a = .ok b := by
  cases x with
  | error e =>
      constructor
      · intro h
        cases h
      · intro h
        obtain ⟨_, ha, -⟩ := h
        cases ha
  | ok a =>
      constructor
      · intro h
        exact ⟨a, rfl, h⟩
      · intro h
        obtain ⟨_, ha, hf⟩ := h
        obtain rfl := Except.ok.inj ha
        exact hf

/-- A result is translated from a result. -/
theorem map_eq_ok_iff {x : Except ε α} {f : α → β} {b : β} :
    x.map f = .ok b ↔ ∃ a, x = .ok a ∧ f a = b := by
  cases x with
  | error e => simp [Except.map]
  | ok a => simp [Except.map]

/-- Translating results leaves errors alone. -/
theorem map_eq_error_iff {x : Except ε α} {f : α → β} {e : ε} :
    x.map f = .error e ↔ x = .error e := by
  cases x with
  | error e' => simp [Except.map]
  | ok a => simp [Except.map]

/-- Translating errors leaves results alone. -/
theorem mapError_eq_ok_iff {x : Except ε α} {f : ε → ε'} {a : α} :
    x.mapError f = .ok a ↔ x = .ok a := by
  cases x with
  | error e =>
      constructor
      · intro h
        cases h
      · intro h
        cases h
  | ok a' =>
      show Except.ok a' = .ok a ↔ Except.ok a' = .ok a
      rw [Except.ok.injEq, Except.ok.injEq]

/-- An error is translated from an error. -/
theorem mapError_eq_error_iff {x : Except ε α} {f : ε → ε'} {e : ε'} :
    x.mapError f = .error e ↔ ∃ e', x = .error e' ∧ f e' = e := by
  cases x with
  | error e' =>
      show Except.error (f e') = .error e ↔ _
      simp
  | ok a =>
      show Except.ok a = .error e ↔ _
      simp

/-- If only the first link of a chain can fail, the chain fails when that link does. -/
theorem bind_pure_eq_error_iff {x : Except ε α} {f : α → β} {e : ε} :
    (x >>= fun a => pure (f a)) = .error e ↔ x = .error e := by
  cases x with
  | error e' =>
      show Except.error e' = .error e ↔ Except.error e' = .error e
      rw [Except.error.injEq, Except.error.injEq]
  | ok a =>
      constructor
      · intro h
        cases h
      · intro h
        cases h

/-- What every step keeps, a fold keeps. -/
theorem foldlM_keeps {P : β → Prop} {step : β → α → Except ε β}
    (hstep : ∀ {b a b'}, P b → step b a = .ok b' → P b') {l : List α} {b b' : β} (hb : P b)
    (hfold : l.foldlM step b = .ok b') : P b' := by
  induction l generalizing b with
  | nil =>
      obtain rfl := Except.ok.inj hfold
      exact hb
  | cons a l ih =>
      rw [List.foldlM_cons] at hfold
      obtain ⟨next, hnext, hrest⟩ := bind_eq_ok_iff.1 hfold
      exact ih (hstep hb hnext) hrest

/-- A fold fails when some step fails behind steps that succeed. -/
theorem foldlM_eq_error_iff {step : β → α → Except ε β} {l : List α} {b : β} {e : ε} :
    l.foldlM step b = .error e ↔ ∃ before a after mid, l = before ++ a :: after ∧
      before.foldlM step b = .ok mid ∧ step mid a = .error e := by
  constructor
  · intro h
    induction l generalizing b with
    | nil => cases h
    | cons a l ih =>
        rw [List.foldlM_cons] at h
        cases hstep : step b a with
        | error e' =>
            rw [hstep] at h
            obtain rfl := Except.error.inj h
            exact ⟨[], a, l, b, rfl, rfl, hstep⟩
        | ok next =>
            rw [hstep] at h
            obtain ⟨before, a', after, mid, rfl, hbefore, hmid⟩ := ih h
            refine ⟨a :: before, a', after, mid, rfl, ?_, hmid⟩
            rw [List.foldlM_cons, hstep]
            exact hbefore
  · rintro ⟨before, a, after, mid, rfl, hbefore, hmid⟩
    rw [List.foldlM_append, hbefore]
    show (a :: after).foldlM step mid = _
    rw [List.foldlM_cons, hmid]
    rfl

/-! ## Translation -/

/-- A computation whose result and whose error are translated. -/
def translate (f : α → β) (g : ε → ε') (x : Except ε α) : Except ε' β := (x.map f).mapError g

section Translate

variable {α' β' : Type} {f : α → α'} {g : β → β'} {h : ε → ε'}

@[simp]
theorem translate_ok (f : α → β) (g : ε → ε') (a : α) :
    (Except.ok a).translate f g = .ok (f a) := rfl

@[simp]
theorem translate_error (f : α → β) (g : ε → ε') (e : ε) :
    (Except.error e).translate f g = .error (g e) := rfl

theorem translate_eq_ok_iff {x : Except ε α} {a' : α'} :
    x.translate f h = .ok a' ↔ ∃ a, x = .ok a ∧ f a = a' :=
  mapError_eq_ok_iff.trans map_eq_ok_iff

/-- A chain is translated link by link. -/
theorem translate_bind {k : α → Except ε β} {k' : α' → Except ε' β'} (x : Except ε α)
    (hk : ∀ a, k' (f a) = (k a).translate g h) :
    (x.translate f h >>= k') = (x >>= k).translate g h := by
  cases x with
  | error e => rfl
  | ok a => exact hk a

/-- A fold is translated step by step. -/
theorem foldlM_translate {step : β → α → Except ε β} {step' : β' → α' → Except ε' β'}
    (hstep : ∀ b a, step' (g b) (f a) = (step b a).translate g h) (l : List α) (b : β) :
    (l.map f).foldlM step' (g b) = (l.foldlM step b).translate g h := by
  induction l generalizing b with
  | nil => rfl
  | cons a l ih =>
      rw [List.map_cons, List.foldlM_cons, List.foldlM_cons, hstep]
      exact translate_bind (step b a) ih

end Translate

/-! ## Lists of computations -/

theorem mapM_cons_eq_ok_iff {f : α → Except ε β} {a : α} {l : List α} {ys : List β} :
    (a :: l).mapM f = .ok ys ↔ ∃ b bs, f a = .ok b ∧ l.mapM f = .ok bs ∧ ys = b :: bs := by
  rw [List.mapM_cons, bind_eq_ok_iff]
  refine exists_congr fun b => ?_
  simp only [bind_eq_ok_iff, exists_and_left]
  refine and_congr_right fun _ => exists_congr fun bs => and_congr_right fun _ => ?_
  rw [eq_comm]
  exact iff_of_eq (Except.ok.injEq _ _)

/-- What a list of computations gives is what each of them gives. -/
theorem mem_of_mapM {f : α → Except ε β} {l : List α} {ys : List β} (h : l.mapM f = .ok ys)
    {y : β} : y ∈ ys ↔ ∃ x ∈ l, f x = .ok y := by
  induction l generalizing ys with
  | nil =>
      obtain rfl := Except.ok.inj h
      simp
  | cons a l ih =>
      obtain ⟨b, bs, hb, hbs, rfl⟩ := mapM_cons_eq_ok_iff.1 h
      simp [ih hbs, hb, eq_comm]

/-- A list of computations succeeds when all of them do. -/
theorem exists_mapM_iff {f : α → Except ε β} {l : List α} :
    (∃ ys, l.mapM f = .ok ys) ↔ ∀ x ∈ l, ∃ y, f x = .ok y := by
  induction l with
  | nil => exact iff_of_true ⟨[], rfl⟩ nofun
  | cons a l ih =>
      rw [List.forall_mem_cons, ← ih]
      constructor
      · intro h
        obtain ⟨_, hys⟩ := h
        obtain ⟨b, bs, hb, hbs, -⟩ := mapM_cons_eq_ok_iff.1 hys
        exact ⟨⟨b, hb⟩, bs, hbs⟩
      · intro h
        obtain ⟨⟨b, hb⟩, bs, hbs⟩ := h
        exact ⟨b :: bs, mapM_cons_eq_ok_iff.2 ⟨b, bs, hb, hbs, rfl⟩⟩

/-- A list of computations fails with the error of the first that fails. -/
theorem mapM_eq_error_iff {f : α → Except ε β} {l : List α} {e : ε} :
    l.mapM f = .error e ↔ ∃ before a after, l = before ++ a :: after ∧
      (∀ x ∈ before, ∃ y, f x = .ok y) ∧ f a = .error e := by
  constructor
  · intro h
    induction l with
    | nil => cases h
    | cons a l ih =>
        rw [List.mapM_cons] at h
        cases ha : f a with
        | error e' =>
            rw [ha] at h
            obtain rfl := Except.error.inj h
            exact ⟨[], a, l, rfl, nofun, ha⟩
        | ok b =>
            rw [ha] at h
            cases hl : l.mapM f with
            | error e' =>
                rw [hl] at h
                obtain rfl := Except.error.inj h
                obtain ⟨before, a', after, rfl, hbefore, ha'⟩ := ih hl
                exact ⟨a :: before, a', after, rfl, List.forall_mem_cons.2 ⟨⟨b, ha⟩, hbefore⟩, ha'⟩
            | ok bs =>
                rw [hl] at h
                cases h
  · rintro ⟨before, a, after, rfl, hbefore, ha⟩
    obtain ⟨ys, hys⟩ := exists_mapM_iff.2 hbefore
    rw [List.mapM_append, hys, List.mapM_cons, ha]
    rfl

/-- A list of checks passes when each of them does. -/
theorem forM_eq_ok {check : α → Except ε Unit} {l : List α} (h : ∀ a ∈ l, check a = .ok ()) :
    l.forM check = .ok () := by
  induction l with
  | nil => rfl
  | cons a l ih =>
      obtain ⟨ha, hl⟩ := List.forall_mem_cons.1 h
      show (check a >>= fun _ => l.forM check) = .ok ()
      rw [ha]
      exact ih hl

/-! ## Agreement up to some errors -/

/-- `Agrees p x y` says that `x` is `y`, unless `x` fails with an error that meets `p`. -/
def Agrees (p : ε → Prop) (x y : Except ε α) : Prop := x = y ∨ ∃ e, p e ∧ x = .error e

variable {p : ε → Prop}

theorem Agrees.refl (p : ε → Prop) (x : Except ε α) : Agrees p x x := .inl rfl

/-- What the first computation gives, the second gives. -/
theorem Agrees.eq_ok {x y : Except ε α} {a : α} (h : Agrees p x y) (hx : x = .ok a) :
    y = .ok a := by
  obtain rfl | ⟨e, -, he⟩ := h
  · exact hx
  · rw [hx] at he
    cases he

/-- If the second computation succeeds, the first can only fail with one of the errors. -/
theorem Agrees.of_error {x y : Except ε α} {a : α} {e : ε} (h : Agrees p x y) (hy : y = .ok a)
    (hx : x = .error e) : p e := by
  obtain rfl | ⟨e', hp, he⟩ := h
  · rw [hx] at hy
    cases hy
  · rw [hx] at he
    obtain rfl := Except.error.inj he
    exact hp

/-- Agreement up to some errors is agreement up to more of them. -/
theorem Agrees.mono {q : ε → Prop} {x y : Except ε α} (h : Agrees p x y) (hpq : ∀ e, p e → q e) :
    Agrees q x y := by
  obtain heq | ⟨e, hp, he⟩ := h
  · exact .inl heq
  · exact .inr ⟨e, hpq e hp, he⟩

theorem Agrees.bind {x y : Except ε α} {f g : α → Except ε β} (h : Agrees p x y)
    (hrest : ∀ a, Agrees p (f a) (g a)) : Agrees p (x >>= f) (y >>= g) := by
  obtain rfl | ⟨e, hp, rfl⟩ := h
  · cases x with
    | error e => exact .refl p (.error e)
    | ok a => exact hrest a
  · exact .inr ⟨e, hp, rfl⟩

theorem Agrees.map {x y : Except ε α} (h : Agrees p x y) (f : α → β) :
    Agrees p (x.map f) (y.map f) := by
  obtain rfl | ⟨e, hp, rfl⟩ := h
  · exact .refl p _
  · exact .inr ⟨e, hp, rfl⟩

theorem Agrees.mapError {x y : Except ε α} {q : ε' → Prop} {f : ε → ε'} (h : Agrees p x y)
    (hpq : ∀ e, p e → q (f e)) : Agrees q (x.mapError f) (y.mapError f) := by
  obtain rfl | ⟨e, hp, rfl⟩ := h
  · exact .refl q _
  · exact .inr ⟨f e, hpq e hp, rfl⟩

/-- Folds whose steps agree agree. -/
theorem Agrees.foldlM {step step' : β → α → Except ε β}
    (hstep : ∀ b a, Agrees p (step b a) (step' b a)) (l : List α) (b : β) :
    Agrees p (l.foldlM step b) (l.foldlM step' b) := by
  induction l generalizing b with
  | nil => exact .refl p _
  | cons a l ih =>
      rw [List.foldlM_cons, List.foldlM_cons]
      exact (hstep b a).bind ih

end Except
