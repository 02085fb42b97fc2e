import RegexEquiv.Proofs.Except
import RegexEquiv.Token.Scan

/-!
# Steps of the reader of characters

A character that is taken in is a backslash that waits for the next one, or the end of a glyph.
`Scan.Read` lists the ways in which a glyph can be taken in, and `Scan.read_eq_ok_iff` says that
these are all the ways; `Scan.Step` and `Scan.step_eq_ok_iff` say the same of a character. Only the
upper end of a range can be refused (`Scan.step_eq_error_iff`).
-/

namespace RegexEquiv

/-- The kind of the token that a glyph makes outside classes, other than a bare `[`. -/
def Glyph.kind : Glyph → TokenKind
  | bare c => Scan.kindOf c
  | escaped c => .symbol c

namespace Scan

/-! ## One glyph -/

/-- `Read scan position glyph next` says that the reader takes in a glyph that starts at a position,
and how it goes on. -/
inductive Read (scan : Scan) (position : Nat) (glyph : Glyph) : Scan → Prop where
  /-- A bracket opens a class. -/
  | opens : scan.mode = .between → glyph = .bare '[' →
      Read scan position glyph { scan with mode := .inClass position [] .nothing }
  /-- Any other glyph outside classes is a token. -/
  | token : scan.mode = .between → glyph ≠ .bare '[' →
      Read scan position glyph { scan with tokens := ⟨glyph.kind, position⟩ :: scan.tokens }
  /-- A bracket closes the class. -/
  | closes (opened : Nat) (members : List ClassMember) (pending : Pending) :
      scan.mode = .inClass opened members pending → glyph = .bare ']' →
      Read scan position glyph
        { scan with
          mode := .between
          tokens := ⟨.oneOf (members ++ pending.members), opened⟩ :: scan.tokens }
  /-- A hyphen behind an item may make a range of it. -/
  | hyphen (opened : Nat) (members : List ClassMember) (m : ClassMember) :
      scan.mode = .inClass opened members (.item m) → glyph = .bare '-' →
      Read scan position glyph { scan with mode := .inClass opened members (.hyphen m position) }
  /-- A glyph behind such a hyphen is the upper end of the range. -/
  | range (opened : Nat) (members : List ClassMember) (m : ClassMember) (hyphen : Nat)
      (between : List ClassMember) :
      scan.mode = .inClass opened members (.hyphen m hyphen) → glyph ≠ .bare ']' →
      Scan.range m glyph.char = .ok between →
      Read scan position glyph { scan with mode := .inClass opened (members ++ between) .nothing }
  /-- Any other glyph in a class is an item. -/
  | item (opened : Nat) (members : List ClassMember) (pending : Pending) :
      scan.mode = .inClass opened members pending → glyph ≠ .bare ']' →
      (∀ m hyphen, pending ≠ .hyphen m hyphen) → (∀ m, pending = .item m → glyph ≠ .bare '-') →
      Read scan position glyph
        { scan with
          mode := .inClass opened (members ++ pending.members) (.item ⟨glyph.char, position⟩) }

variable {scan next : Scan} {position : Nat} {glyph : Glyph} {fault : Fault} {c : Char}

/-- What the reader does with a glyph. -/
theorem read_eq_ok_iff : scan.read position glyph = .ok next ↔ Read scan position glyph next := by
  constructor
  · fun_cases Scan.read scan position glyph with
    | case1 hmode =>
        intro h
        obtain rfl := Except.ok.inj h
        exact .opens hmode rfl
    | case2 c hc hmode =>
        intro h
        obtain rfl := Except.ok.inj h
        exact .token hmode fun heq => hc (Glyph.bare.inj heq)
    | case3 c hmode =>
        intro h
        obtain rfl := Except.ok.inj h
        exact .token hmode nofun
    | case4 opened members pending hmode =>
        intro h
        obtain rfl := Except.ok.inj h
        exact .closes opened members pending hmode rfl
    | case5 opened members m hmode =>
        intro h
        obtain rfl := Except.ok.inj h
        exact .hyphen opened members m hmode rfl
    | case6 opened members m hyphen glyph hclose hmode =>
        intro h
        obtain ⟨between, hbetween, rfl⟩ := Except.map_eq_ok_iff.1 h
        exact .range opened members m hyphen between hmode hclose hbetween
    | case7 opened members pending glyph hclose hitem hhyphen hmode =>
        intro h
        obtain rfl := Except.ok.inj h
        exact .item opened members pending hmode hclose hhyphen
          fun m hpending hglyph => hitem m hglyph hpending
  · intro h
    obtain ⟨at', escape, mode, tokens⟩ := scan
    cases h with
    | opens hmode hglyph =>
        obtain rfl : mode = .between := hmode
        obtain rfl := hglyph
        rfl
    | token hmode hglyph =>
        obtain rfl : mode = .between := hmode
        cases glyph with
        | bare c =>
            have hc : c ≠ '[' := fun heq => hglyph (congrArg Glyph.bare heq)
            simp [Scan.read, Glyph.kind]
        | escaped c => rfl
    | closes opened members pending hmode hglyph =>
        obtain rfl : mode = .inClass opened members pending := hmode
        obtain rfl := hglyph
        rfl
    | hyphen opened members m hmode hglyph =>
        obtain rfl : mode = .inClass opened members (.item m) := hmode
        obtain rfl := hglyph
        rfl
    | range opened members m hyphen between hmode hglyph hbetween =>
        obtain rfl : mode = .inClass opened members (.hyphen m hyphen) := hmode
        simp [Scan.read, hbetween, Except.map]
    | item opened members pending hmode hglyph hhyphen hitem =>
        obtain rfl : mode = .inClass opened members pending := hmode
        cases pending with
        | nothing => simp [Scan.read]
        | item m => simp [Scan.read, hitem m rfl]
        | hyphen m hyphen => exact (hhyphen m hyphen rfl).elim

/-- A glyph does not move the reader. -/
theorem Read.cursor_eq (h : Read scan position glyph next) :
    next.position = scan.position ∧ next.escape = scan.escape := by
  cases h with
  | opens | token | closes | hyphen | range | item => exact ⟨rfl, rfl⟩

theorem range_eq_error_iff {lower : ClassMember} {hi : Char} :
    range lower hi = .error fault ↔
      hi < lower.symbol ∧ fault = ⟨lower.position, .invalidRange lower.symbol hi⟩ := by
  unfold range
  split
  · rename_i hlt
    rw [Except.error.injEq, eq_comm]
    exact (and_iff_right hlt).symm
  · rename_i hle
    exact iff_of_false nofun fun h => hle h.1

/-- The members of a range are the characters from its lower to its upper end. -/
theorem range_eq_ok_iff {lower : ClassMember} {hi : Char} {between : List ClassMember} :
    range lower hi = .ok between ↔
      lower.symbol ≤ hi ∧ between = (Text.interval lower.symbol hi).map (⟨·, lower.position⟩) := by
  unfold range
  split
  · rename_i hlt
    exact iff_of_false nofun fun h => (Char.not_lt.2 h.1) hlt
  · rename_i hle
    rw [Except.ok.injEq, eq_comm]
    exact (and_iff_right (Char.not_lt.1 hle)).symm

/-- The reader refuses a glyph only as the upper end of a range, when it lies below the lower. -/
theorem read_eq_error_iff :
    scan.read position glyph = .error fault ↔
      ∃ opened members m hyphen, scan.mode = .inClass opened members (.hyphen m hyphen) ∧
        glyph ≠ .bare ']' ∧ range m glyph.char = .error fault := by
  constructor
  · fun_cases Scan.read scan position glyph with
    | case6 opened members m hyphen glyph hclose hmode =>
        intro h
        cases hrange : range m glyph.char with
        | error fault' =>
            rw [hrange] at h
            obtain rfl := Except.error.inj h
            exact ⟨opened, members, m, hyphen, hmode, hclose, hrange⟩
        | ok between =>
            rw [hrange] at h
            cases h
    | _ =>
        intro h
        cases h
  · rintro ⟨opened, members, m, hyphen, hmode, hclose, hrange⟩
    obtain ⟨at', escape, mode, tokens⟩ := scan
    obtain rfl : mode = .inClass opened members (.hyphen m hyphen) := hmode
    simp [Scan.read, hrange, Except.map]

/-! ## One character -/

/-- The reader behind one more character, when it waits for nothing. -/
def pass (scan : Scan) : Scan := { scan with position := scan.position + 1, escape := none }

/-- `Ends scan c start glyph` says that a character ends a glyph that starts at a position. -/
inductive Ends (scan : Scan) (c : Char) : Nat → Glyph → Prop where
  | escaped (start : Nat) : scan.escape = some start → Ends scan c start (.escaped c)
  | bare : scan.escape = none → c ≠ '\\' → Ends scan c scan.position (.bare c)

/-- `Step scan c next` says that the reader takes in a character, and how it goes on. -/
inductive Step (scan : Scan) (c : Char) : Scan → Prop where
  /-- A backslash waits for the next character. -/
  | waits : scan.escape = none → c = '\\' →
      Step scan c { scan with position := scan.position + 1, escape := some scan.position }
  /-- Any other character ends a glyph. -/
  | ends (start : Nat) (glyph : Glyph) (next : Scan) :
      Ends scan c start glyph → Read scan.pass start glyph next → Step scan c next

/-- What the reader does with a character that ends a glyph. -/
theorem Ends.step_eq {start : Nat} (h : Ends scan c start glyph) :
    scan.step c = scan.pass.read start glyph := by
  cases h with
  | escaped start hescape => simp only [Scan.step, hescape, pass]
  | bare hescape hc => simp only [Scan.step, hescape, if_neg hc, pass]

/-- A character ends a glyph unless it is a backslash that none precedes. -/
theorem waits_or_ends (scan : Scan) (c : Char) :
    (scan.escape = none ∧ c = '\\') ∨ ∃ start glyph, Ends scan c start glyph := by
  cases hescape : scan.escape with
  | some start => exact .inr ⟨start, _, .escaped start hescape⟩
  | none =>
      by_cases hc : c = '\\'
      · exact .inl ⟨rfl, hc⟩
      · exact .inr ⟨_, _, .bare hescape hc⟩

theorem step_of_waits (hescape : scan.escape = none) (hc : c = '\\') :
    scan.step c =
      .ok { scan with position := scan.position + 1, escape := some scan.position } := by
  simp only [Scan.step, hescape, if_pos hc]

/-- What the reader does with a character. -/
theorem step_eq_ok_iff : scan.step c = .ok next ↔ Step scan c next := by
  constructor
  · intro h
    obtain ⟨hescape, hc⟩ | ⟨start, glyph, hends⟩ := waits_or_ends scan c
    · rw [step_of_waits hescape hc] at h
      obtain rfl := Except.ok.inj h
      exact .waits hescape hc
    · rw [hends.step_eq] at h
      exact .ends start glyph next hends (read_eq_ok_iff.1 h)
  · intro h
    cases h with
    | waits hescape hc => exact step_of_waits hescape hc
    | ends start glyph next hends hread => exact hends.step_eq.trans (read_eq_ok_iff.2 hread)

/-- The reader refuses a character only when it refuses the glyph that it ends. -/
theorem step_eq_error_iff :
    scan.step c = .error fault ↔
      ∃ start glyph, Ends scan c start glyph ∧ scan.pass.read start glyph = .error fault := by
  constructor
  · intro h
    obtain ⟨hescape, hc⟩ | ⟨start, glyph, hends⟩ := waits_or_ends scan c
    · rw [step_of_waits hescape hc] at h
      cases h
    · exact ⟨start, glyph, hends, hends.step_eq ▸ h⟩
  · rintro ⟨start, glyph, hends, hread⟩
    exact hends.step_eq.trans hread

/-! ## The end of a text -/

/-- A text can only end too early behind a backslash or in a class. -/
theorem finish_eq_error_iff :
    scan.finish = .error fault ↔
      (∃ start, scan.escape = some start ∧ fault = ⟨start, .danglingEscape⟩) ∨
        scan.escape = none ∧ ∃ opened members pending,
          scan.mode = .inClass opened members pending ∧ fault = ⟨opened, .unclosedClass⟩ := by
  obtain ⟨position, escape, mode, tokens⟩ := scan
  cases escape with
  | some start => simp [finish, eq_comm]
  | none =>
      cases mode with
      | between => simp [finish]
      | inClass opened members pending => simp [finish, eq_comm]

end Scan

namespace Token

/-! ## A text -/

theorem scanFrom_singleton (scan : Scan) (c : Char) : scanFrom scan [c] = scan.step c := by
  rw [scanFrom, List.foldlM_cons]
  exact bind_pure _

/-- A text with one more character is read by reading the text and then the character. -/
theorem scanFrom_concat_eq_ok_iff {scan next : Scan} {text : List Char} {c : Char} :
    scanFrom scan (text ++ [c]) = .ok next ↔
      ∃ mid, scanFrom scan text = .ok mid ∧ mid.step c = .ok next := by
  rw [scanFrom_append, Except.bind_eq_ok_iff]
  simp only [scanFrom_singleton]

end Token

end RegexEquiv
