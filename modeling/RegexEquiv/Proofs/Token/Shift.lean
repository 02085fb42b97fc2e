import RegexEquiv.Proofs.Except
import RegexEquiv.Proofs.Token.Depth
import RegexEquiv.Proofs.Token.Step

/-!
# Tokens of a text behind another

Behind another text that is split into tokens, a text is split as it is on its own, with all offsets
shifted by the length of the first text (`Token.scan_append`). Shifting offsets changes neither what
is open behind some tokens nor how deep they nest (`Token.deepest_shift`).
-/

namespace RegexEquiv

/-! ## Shifted offsets -/

/-- A member of a class, so many characters further on. -/
def ClassMember.shift (offset : Nat) (m : ClassMember) : ClassMember :=
  { m with position := offset + m.position }

/-- The kind of a token, so many characters further on. -/
def TokenKind.shift (offset : Nat) : TokenKind → TokenKind
  | oneOf members => oneOf (members.map (ClassMember.shift offset))
  | kind => kind

/-- Only a class looks different further on. -/
theorem TokenKind.shift_eq_iff {offset : Nat} {kind other : TokenKind}
    (hother : ∀ members, other ≠ oneOf members) : kind.shift offset = other ↔ kind = other := by
  cases kind with
  | oneOf members => exact iff_of_false (fun h => hother _ h.symm) fun h => hother _ h.symm
  | symbol | wildcard | quantifier | bar | opening | closing => exact Iff.rfl

theorem TokenKind.shift_shift (kind : TokenKind) (m n : Nat) :
    (kind.shift m).shift n = kind.shift (n + m) := by
  cases kind with
  | oneOf members =>
      show TokenKind.oneOf _ = .oneOf _
      rw [List.map_map]
      refine congrArg _ (List.map_congr_left fun c _ => ?_)
      show ClassMember.mk c.symbol (n + (m + c.position)) = ⟨c.symbol, n + m + c.position⟩
      rw [Nat.add_assoc]
  | symbol | wildcard | quantifier | bar | opening | closing => rfl

/-- A token, so many characters further on. -/
def Token.shift (offset : Nat) (t : Token) : Token := ⟨t.kind.shift offset, offset + t.position⟩

/-- A fault, so many characters further on. -/
def Fault.shift (offset : Nat) (fault : Fault) : Fault :=
  { fault with position := offset + fault.position }

/-- What a class has read, so many characters further on. -/
def Pending.shift (offset : Nat) : Pending → Pending
  | nothing => nothing
  | item m => item (m.shift offset)
  | hyphen m position => hyphen (m.shift offset) (offset + position)

/-- Where the reader stands, so many characters further on. -/
def ScanMode.shift (offset : Nat) : ScanMode → ScanMode
  | between => between
  | inClass opened members pending =>
      inClass (offset + opened) (members.map (ClassMember.shift offset)) (pending.shift offset)

/-- The reader, when it reads behind so many characters, of which it has made some tokens. -/
def Scan.behind (offset : Nat) (read : List Token) (scan : Scan) : Scan where
  position := offset + scan.position
  escape := scan.escape.map (offset + ·)
  mode := scan.mode.shift offset
  tokens := scan.tokens.map (Token.shift offset) ++ read

namespace Scan

variable (offset : Nat) (read : List Token)

/-! ## The reader behind another text -/

theorem shift_kindOf (c : Char) : (kindOf c).shift offset = kindOf c := by
  unfold kindOf
  split <;> rfl

theorem members_shift (pending : Pending) :
    (pending.shift offset).members = pending.members.map (ClassMember.shift offset) := by
  cases pending with
  | nothing | item m | hyphen m position => rfl

theorem range_shift (lower : ClassMember) (hi : Char) :
    range (lower.shift offset) hi =
      (range lower hi).translate (List.map (ClassMember.shift offset)) (Fault.shift offset) := by
  have hsymbol : (lower.shift offset).symbol = lower.symbol := rfl
  unfold range
  rw [hsymbol]
  split
  · simp only [Except.translate_error, Fault.shift, ClassMember.shift]
  · simp only [Except.translate_ok, List.map_map]
    rfl

/-- Behind another text, a glyph is taken in as it is at the start. -/
theorem read_behind (scan : Scan) (position : Nat) (glyph : Glyph) :
    (scan.behind offset read).read (offset + position) glyph =
      (scan.read position glyph).translate (behind offset read) (Fault.shift offset) := by
  obtain ⟨next, escape, mode, tokens⟩ := scan
  fun_cases Scan.read ⟨next, escape, mode, tokens⟩ position glyph with
  | case1 hmode | case3 c hmode =>
      obtain rfl : mode = .between := hmode
      rfl
  | case2 c hc hmode =>
      obtain rfl : mode = .between := hmode
      simp only [Scan.read, behind, ScanMode.shift, Except.translate_ok, List.map_cons,
        Token.shift, shift_kindOf, List.cons_append]
  | case4 opened members pending hmode =>
      obtain rfl : mode = .inClass opened members pending := hmode
      simp only [Scan.read, behind, ScanMode.shift, Except.translate_ok, List.map_cons,
        Token.shift, TokenKind.shift, members_shift, List.map_append, List.cons_append]
  | case5 opened members m hmode =>
      obtain rfl : mode = .inClass opened members (.item m) := hmode
      rfl
  | case6 opened members m hyphen glyph hclose hmode =>
      obtain rfl : mode = .inClass opened members (.hyphen m hyphen) := hmode
      simp only [Scan.read, behind, ScanMode.shift, Pending.shift, range_shift]
      cases range m glyph.char with
      | error fault => rfl
      | ok ms =>
          simp only [Except.translate_ok, Except.map, List.map_append, behind, ScanMode.shift,
            Pending.shift]
  | case7 opened members pending glyph hclose hrange hhyphen hmode =>
      obtain rfl : mode = .inClass opened members pending := hmode
      cases pending with
      | nothing =>
          simp only [Scan.read, behind, ScanMode.shift, Pending.shift, Pending.members,
            Except.translate_ok, List.map_append, List.map_nil, ClassMember.shift]
      | item m =>
          have hdash : glyph ≠ .bare '-' := fun hglyph => hrange m hglyph rfl
          simp [Scan.read, behind, ScanMode.shift, Pending.shift, Pending.members, hdash,
            ClassMember.shift]
      | hyphen m hyphen => exact (hhyphen m hyphen rfl).elim

/-- Behind another text, a character is taken in as it is at the start. -/
theorem step_behind (scan : Scan) (c : Char) :
    (scan.behind offset read).step c =
      (scan.step c).translate (behind offset read) (Fault.shift offset) := by
  obtain ⟨next, escape, mode, tokens⟩ := scan
  cases escape with
  | some position =>
      exact read_behind offset read ⟨next + 1, none, mode, tokens⟩ position (.escaped c)
  | none =>
      by_cases hc : c = '\\'
      · subst hc
        rfl
      · simp only [Scan.step, Scan.behind, Option.map_none, if_neg hc]
        exact read_behind offset read ⟨next + 1, none, mode, tokens⟩ next (.bare c)

/-- Behind another text, the tokens at the end are those of that text and then, shifted, those that
there are otherwise. -/
theorem finish_behind (scan : Scan) :
    (scan.behind offset read).finish =
      scan.finish.translate (read.reverse ++ List.map (Token.shift offset) ·)
        (Fault.shift offset) := by
  obtain ⟨next, escape, mode, tokens⟩ := scan
  cases escape with
  | some position => rfl
  | none =>
      cases mode with
      | inClass opened members pending => rfl
      | between =>
          show Except.ok (tokens.map (Token.shift offset) ++ read).reverse =
            Except.ok (read.reverse ++ tokens.reverse.map (Token.shift offset))
          rw [List.reverse_append, List.map_reverse]

/-- At the end of a text that is split into tokens, nothing is left open. -/
theorem eq_of_finish {scan : Scan} {tokens : List Token} (h : scan.finish = .ok tokens) :
    scan = ⟨scan.position, none, .between, tokens.reverse⟩ := by
  obtain ⟨next, escape, mode, made⟩ := scan
  cases escape with
  | some position => cases h
  | none =>
      cases mode with
      | inClass opened members pending => cases h
      | between =>
          obtain rfl := Except.ok.inj h
          rw [List.reverse_reverse]

/-! ## The offset of the next character -/

/-- Every character is taken in once. -/
theorem position_step {scan next : Scan} {c : Char} (h : scan.step c = .ok next) :
    next.position = scan.position + 1 := by
  cases step_eq_ok_iff.1 h with
  | waits => rfl
  | ends _ _ _ _ hread => exact hread.cursor_eq.1

end Scan

namespace Token

theorem position_scanFrom {scan final : Scan} {text : List Char}
    (h : scanFrom scan text = .ok final) : final.position = scan.position + text.length := by
  induction text generalizing scan with
  | nil =>
      obtain rfl := Except.ok.inj h
      rfl
  | cons c text ih =>
      rw [scanFrom, List.foldlM_cons] at h
      obtain ⟨next, hnext, hrest⟩ := Except.bind_eq_ok_iff.1 h
      rw [ih hrest, Scan.position_step hnext, List.length_cons]
      omega

/-- At the end of a text that is split into tokens, the reader stands behind the text and has made
the tokens. -/
theorem scanFrom_of_scan {text : List Char} {tokens : List Token} (h : scan text = .ok tokens) :
    scanFrom .start text = .ok (Scan.start.behind text.length tokens.reverse) := by
  obtain ⟨final, hfinal, hfinish⟩ := Except.bind_eq_ok_iff.1 h
  have hposition : final.position = 0 + text.length := position_scanFrom hfinal
  rw [hfinal, Scan.eq_of_finish hfinish, hposition, Nat.zero_add]
  rfl

/-- Behind a text that is split into tokens, a text is split as it is on its own, with all offsets
shifted. -/
theorem scan_append {text more : List Char} {tokens : List Token} (h : scan text = .ok tokens) :
    scan (text ++ more) =
      (scan more).translate (tokens ++ List.map (Token.shift text.length) ·)
        (Fault.shift text.length) := by
  have hmore : scanFrom (Scan.start.behind text.length tokens.reverse) more =
      (scanFrom .start more).translate (Scan.behind text.length tokens.reverse)
        (Fault.shift text.length) := by
    have hfold := Except.foldlM_translate (f := id)
      (Scan.step_behind text.length tokens.reverse) more .start
    rwa [List.map_id] at hfold
  rw [scan, scanFrom_append, scanFrom_of_scan h]
  show scanFrom (Scan.start.behind text.length tokens.reverse) more >>= Scan.finish = _
  rw [hmore, Except.translate_bind _ (Scan.finish_behind _ _), List.reverse_reverse]
  rfl

/-! ## Texts wherever they stand -/

/-- `Yields text P` says that a text is split into tokens, and that their kinds meet `P` however
many characters stand before the text. -/
def Yields (text : List Char) (P : List TokenKind → Prop) : Prop :=
  ∃ tokens, scan text = .ok tokens ∧ ∀ offset, P (tokens.map fun t => t.kind.shift offset)

/-- Two texts, one after the other, yield the tokens of both. -/
theorem Yields.append {text more : List Char} {P Q R : List TokenKind → Prop}
    (h : Yields text P) (h' : Yields more Q)
    (hboth : ∀ kinds others, P kinds → Q others → R (kinds ++ others)) :
    Yields (text ++ more) R := by
  obtain ⟨tokens, hscan, hkinds⟩ := h
  obtain ⟨others, hscan', hothers⟩ := h'
  refine ⟨tokens ++ others.map (Token.shift text.length), ?_, fun offset => ?_⟩
  · rw [scan_append hscan, hscan']
    rfl
  · rw [List.map_append, List.map_map]
    refine hboth _ _ (hkinds offset) ?_
    have hshift : (fun t : Token => t.kind.shift offset) ∘ Token.shift text.length =
        fun t => t.kind.shift (offset + text.length) :=
      funext fun t => t.kind.shift_shift text.length offset
    rw [hshift]
    exact hothers _

/-- A bare character that is a token of its own yields its token. -/
theorem yields_bare {c : Char} {kind : TokenKind} (hscan : scan [c] = .ok [⟨kind, 0⟩])
    (hkind : ∀ members, kind ≠ .oneOf members) : Yields [c] (· = [kind]) :=
  ⟨_, hscan, fun _ => congrArg (· :: []) ((TokenKind.shift_eq_iff hkind).2 rfl)⟩

/-! ## What shifting keeps -/

theorem openGroups_shift (offset : Nat) (tokens : List Token) :
    openGroups (tokens.map (Token.shift offset)) = openGroups tokens := by
  have hopenings : openings (tokens.map (Token.shift offset)) = openings tokens := by
    rw [openings, List.countP_map]
    exact List.countP_congr fun t _ => by simp [Token.shift, TokenKind.shift_eq_iff]
  have hclosings : closings (tokens.map (Token.shift offset)) = closings tokens := by
    rw [closings, List.countP_map]
    exact List.countP_congr fun t _ => by simp [Token.shift, TokenKind.shift_eq_iff]
  rw [openGroups, openGroups, hopenings, hclosings]

/-- Shifted tokens nest as deep as before. -/
theorem deepest_shift (offset : Nat) (tokens : List Token) :
    deepest (tokens.map (Token.shift offset)) = deepest tokens := by
  rw [deepest, deepest, List.map_inits, List.map_map]
  refine congrArg (List.foldr max 0) (List.map_congr_left fun front _ => ?_)
  exact openGroups_shift offset front

end Token

end RegexEquiv
