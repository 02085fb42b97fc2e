import Mathlib.Data.List.Induction
import RegexEquiv.Proofs.Token.Shift

/-!
# Cutting a text into its tokens

No token depends on what stands before or behind it. Behind a text that is split into tokens,
another text is split as it is on its own (`Token.scan_append`). Conversely, a text that is split
into tokens can be cut where they begin, and each piece is split into its one token:
`Token.scan_pieces`. The proof follows the reader, which at any time stands behind some finished
pieces and within the next one (`Token.Within`).
-/

namespace RegexEquiv

namespace Scan

/-! ## The first token -/

/-- `scan.Begins` says that the reader has not finished its first token: it has read nothing, or a
backslash, or the beginning of a class. -/
inductive Begins : Scan → Prop where
  | start : Begins .start
  | escape : Begins ⟨1, some 0, .between, []⟩
  | inClass (position : Nat) (escape : Option Nat) (members : List ClassMember)
      (pending : Pending) : Begins ⟨position, escape, .inClass 0 members pending, []⟩

/-- A character goes on with the first token or ends it. -/
theorem Begins.step {scan next : Scan} {c : Char} (h : scan.Begins)
    (hstep : scan.step c = .ok next) :
    next.Begins ∨ ∃ kind, next = ⟨scan.position + 1, none, .between, [⟨kind, 0⟩]⟩ := by
  cases step_eq_ok_iff.1 hstep with
  | waits hescape hc =>
      cases h with
      | start => exact .inl .escape
      | escape => cases hescape
      | inClass position escape members pending => exact .inl (.inClass _ _ _ _)
  | ends start glyph _ hends hread =>
      cases h with
      | start =>
          cases hends with
          | escaped start hescape => cases hescape
          | bare hescape hc =>
              cases hread with
              | opens => exact .inl (.inClass _ _ _ _)
              | token => exact .inr ⟨_, rfl⟩
              | closes _ _ _ hmode | hyphen _ _ _ hmode | range _ _ _ _ _ hmode
              | item _ _ _ hmode => cases hmode
      | escape =>
          cases hends with
          | bare hescape => cases hescape
          | escaped start hescape =>
              obtain rfl := Option.some.inj hescape
              cases hread with
              | opens _ hglyph => cases hglyph
              | token => exact .inr ⟨_, rfl⟩
              | closes _ _ _ hmode | hyphen _ _ _ hmode | range _ _ _ _ _ hmode
              | item _ _ _ hmode => cases hmode
      | inClass position escape members pending =>
          cases hread with
          | opens hmode | token hmode => cases hmode
          | closes _ _ _ hmode =>
              cases hmode
              exact .inr ⟨_, rfl⟩
          | hyphen _ _ _ hmode | range _ _ _ _ _ hmode | item _ _ _ hmode =>
              cases hmode
              exact .inl (.inClass _ _ _ _)

end Scan

namespace Token

/-! ## Pieces -/

/-- `Pieces offset pieces tokens` says that some texts are split into one token each, and that these
are the given tokens when the texts stand one behind another from an offset on. -/
inductive Pieces : Nat → List (List Char) → List Token → Prop where
  | nil (offset : Nat) : Pieces offset [] []
  | cons {offset : Nat} {piece : List Char} {own : Token} {pieces : List (List Char)}
      {tokens : List Token} : scan piece = .ok [own] → own.position = 0 →
      Pieces (offset + piece.length) pieces tokens →
      Pieces offset (piece :: pieces) (own.shift offset :: tokens)

variable {offset : Nat} {pieces : List (List Char)} {tokens : List Token} {text : List Char}

theorem Pieces.concat {piece : List Char} {own : Token} (h : Pieces offset pieces tokens)
    (hscan : scan piece = .ok [own]) (hposition : own.position = 0) :
    Pieces offset (pieces ++ [piece])
      (tokens ++ [own.shift (offset + pieces.flatten.length)]) := by
  induction h with
  | nil offset => exact .cons hscan hposition (.nil _)
  | cons hfirst hstart _ ih =>
      rw [List.flatten_cons, List.length_append, ← Nat.add_assoc]
      exact .cons hfirst hstart ih

/-- A text that is split into a token is not empty. -/
theorem length_pos_of_scan {piece : List Char} {own : Token} (h : scan piece = .ok [own]) :
    0 < piece.length := by
  cases piece with
  | nil => cases h
  | cons c piece => exact Nat.succ_pos _

theorem Pieces.le_position (h : Pieces offset pieces tokens) :
    ∀ t ∈ tokens, offset ≤ t.position := by
  induction h with
  | nil => exact nofun
  | cons _ _ _ ih =>
      refine List.forall_mem_cons.2 ⟨Nat.le_add_right _ _, fun t ht => ?_⟩
      exact Nat.le_trans (Nat.le_add_right _ _) (ih t ht)

/-- The tokens begin one behind another. -/
theorem Pieces.pairwise_position (h : Pieces offset pieces tokens) :
    (tokens.map Token.position).Pairwise (· < ·) := by
  induction h with
  | nil => exact .nil
  | @cons offset piece own _ _ hscan hposition hrest ih =>
      refine List.Pairwise.cons (fun position hmem => ?_) ih
      obtain ⟨t, ht, rfl⟩ := List.mem_map.1 hmem
      have hle := hrest.le_position t ht
      have hpos := length_pos_of_scan hscan
      show offset + own.position < t.position
      omega

/-- The first token begins where the pieces do. -/
theorem Pieces.position_head (h : Pieces offset pieces tokens) :
    ∀ first ∈ tokens.head?, first.position = offset := by
  cases h with
  | nil => exact nofun
  | @cons _ _ own _ _ _ hposition =>
      intro first hfirst
      obtain rfl := Option.some.inj hfirst
      show offset + own.position = offset
      rw [hposition, Nat.add_zero]

/-- The parts of a text that begin at some positions and end at the next, or at the end. -/
def cut (text : List Char) : List Nat → List (List Char)
  | [] => []
  | [position] => [text.drop position]
  | position :: next :: positions =>
      (text.take next).drop position :: cut text (next :: positions)

/-- Cut where the tokens begin, the text falls into the pieces. -/
theorem Pieces.cut_eq (h : Pieces offset pieces tokens) (front : List Char)
    (hfront : front.length = offset) :
    cut (front ++ pieces.flatten) (tokens.map Token.position) = pieces := by
  induction h generalizing front with
  | nil => rfl
  | @cons offset piece own pieces tokens hscan hposition hrest ih =>
      have hbehind := ih (front ++ piece) (by rw [List.length_append, hfront])
      have hstart : (own.shift offset).position = front.length := by
        show offset + own.position = front.length
        rw [hposition, hfront, Nat.add_zero]
      rw [List.flatten_cons, ← List.append_assoc, List.map_cons, hstart]
      cases hrest with
      | nil => simp [cut]
      | @cons _ second other pieces tokens hscan' hposition' hrest' =>
          have hnext : (other.shift (offset + piece.length)).position =
              (front ++ piece).length := by
            show offset + piece.length + other.position = (front ++ piece).length
            rw [hposition', List.length_append, hfront, Nat.add_zero]
          rw [List.map_cons, hnext] at hbehind ⊢
          rw [cut, hbehind, List.take_left' rfl, List.drop_left' rfl]

/-- Each piece is split into its token, as it looks at the start of a text. -/
theorem Pieces.forall₂ (h : Pieces offset pieces tokens) :
    List.Forall₂ (fun piece t => ∃ own, scan piece = .ok [own] ∧ own.position = 0 ∧
      own.shift t.position = t) pieces tokens := by
  induction h with
  | nil => exact .nil
  | @cons offset piece own _ _ hscan hposition _ ih =>
      refine .cons ⟨own, hscan, hposition, ?_⟩ ih
      show own.shift (offset + own.position) = own.shift offset
      rw [hposition, Nat.add_zero]

/-! ## The reader within a text -/

/-- `Within text scan` says that a reader that has read a text stands behind some pieces, in the
first token of what follows them. -/
inductive Within : List Char → Scan → Prop where
  | behind {pieces : List (List Char)} {tokens : List Token} {rest : List Char} {here : Scan} :
      Pieces 0 pieces tokens → scanFrom .start rest = .ok here → here.Begins →
      Within (pieces.flatten ++ rest) (here.behind pieces.flatten.length tokens.reverse)

theorem within_nil : Within [] .start := .behind (.nil 0) rfl .start

variable {reader next : Scan} {c : Char}

theorem Within.step (h : Within text reader) (hstep : reader.step c = .ok next) :
    Within (text ++ [c]) next := by
  cases h with
  | @behind pieces tokens rest here hpieces hrest hbegins =>
      rw [Scan.step_behind, Except.translate_eq_ok_iff] at hstep
      obtain ⟨here', hstep, rfl⟩ := hstep
      have hread : scanFrom .start (rest ++ [c]) = .ok here' :=
        scanFrom_concat_eq_ok_iff.2 ⟨here, hrest, hstep⟩
      rw [List.append_assoc]
      obtain hbegins' | ⟨kind, rfl⟩ := hbegins.step hstep
      · exact .behind hpieces hread hbegins'
      · -- The token is finished, so what has been read of it is one more piece.
        have hscan : scan (rest ++ [c]) = .ok [⟨kind, 0⟩] := by
          rw [scan, hread]
          rfl
        have hposition := position_scanFrom hrest
        have hmore := @Within.behind _ _ [] _ (hpieces.concat hscan rfl) rfl .start
        simp only [List.flatten_append, List.flatten_cons, List.flatten_nil, List.append_nil,
          Nat.zero_add, List.reverse_append, List.reverse_cons, List.reverse_nil,
          List.nil_append, List.length_append, List.length_cons, List.length_nil,
          List.cons_append] at hmore
        simpa [Scan.behind, Scan.start, ScanMode.shift, hposition] using hmore

/-- Whatever the reader has read, it is within it. -/
theorem within_of_scanFrom (h : scanFrom .start text = .ok reader) : Within text reader := by
  induction text using List.reverseRecOn generalizing reader with
  | nil =>
      obtain rfl := Except.ok.inj h
      exact within_nil
  | append_singleton text c ih =>
      obtain ⟨mid, hmid, hstep⟩ := scanFrom_concat_eq_ok_iff.1 h
      exact (ih hmid).step hstep

/-- A text that is split into tokens is made up of pieces. -/
theorem exists_pieces (h : scan text = .ok tokens) :
    ∃ pieces, Pieces 0 pieces tokens ∧ pieces.flatten = text := by
  obtain ⟨final, hfinal, hfinish⟩ := Except.bind_eq_ok_iff.1 h
  cases within_of_scanFrom hfinal with
  | @behind pieces made rest here hpieces hrest hbegins =>
      rw [Scan.finish_behind, Except.translate_eq_ok_iff] at hfinish
      obtain ⟨others, hothers, rfl⟩ := hfinish
      cases hbegins with
      | escape => cases hothers
      | inClass position escape members pending => cases escape <;> cases hothers
      | start =>
          obtain rfl := Except.ok.inj hothers
          have hposition : 0 = 0 + rest.length := position_scanFrom hrest
          obtain rfl : rest = [] := List.length_eq_zero_iff.1 (by omega)
          refine ⟨pieces, ?_, (List.append_nil _).symm⟩
          rw [List.reverse_reverse]
          exact (List.append_nil made).symm ▸ hpieces

/-! ## Tokens and pieces -/

/-- Behind a text that is split into tokens, another text is split as it is on its own, with all
offsets shifted by the length of the first; if it is refused, the fault is shifted likewise. The
tokens of a text begin one behind another, the first at its start. Cut there, the text falls into
pieces, and each of them is split into just its own token, with offsets from the start of the
piece. -/
theorem scan_pieces (h : scan text = .ok tokens) :
    (∀ more others, scan more = .ok others →
        scan (text ++ more) = .ok (tokens ++ others.map (Token.shift text.length))) ∧
      (∀ more fault, scan more = .error fault →
        scan (text ++ more) = .error (fault.shift text.length)) ∧
      (tokens.map Token.position).Pairwise (· < ·) ∧
      (∀ first ∈ tokens.head?, first.position = 0) ∧
      (cut text (tokens.map Token.position)).flatten = text ∧
      List.Forall₂ (fun piece t => ∃ own, scan piece = .ok [own] ∧ own.position = 0 ∧
        own.shift t.position = t) (cut text (tokens.map Token.position)) tokens := by
  obtain ⟨pieces, hpieces, rfl⟩ := exists_pieces h
  have hcut : cut pieces.flatten (tokens.map Token.position) = pieces :=
    hpieces.cut_eq [] rfl
  refine ⟨fun more others hmore => ?_, fun more fault hmore => ?_, hpieces.pairwise_position,
    hpieces.position_head, ?_, ?_⟩
  · rw [scan_append h, hmore]
    rfl
  · rw [scan_append h, hmore]
    rfl
  · rw [hcut]
  · rw [hcut]
    exact hpieces.forall₂

/-- An escaped symbol, a class with a range and a quantifier are three pieces. What stands behind
them is read, or refused, eight characters further on. -/
theorem scan_pieces_escape_class :
    scan "\\*[b-c]+".toList =
        .ok [⟨.symbol '*', 0⟩, ⟨.oneOf [⟨'b', 3⟩, ⟨'c', 3⟩], 2⟩, ⟨.quantifier .plus, 7⟩] ∧
      scan ("\\*[b-c]+".toList ++ "[d]".toList) =
        .ok [⟨.symbol '*', 0⟩, ⟨.oneOf [⟨'b', 3⟩, ⟨'c', 3⟩], 2⟩, ⟨.quantifier .plus, 7⟩,
          ⟨.oneOf [⟨'d', 9⟩], 8⟩] ∧
      scan ("\\*[b-c]+".toList ++ "a[z-b]".toList) = .error ⟨10, .invalidRange 'z' 'b'⟩ ∧
      List.Forall₂ (fun piece t => ∃ own, scan piece = .ok [own] ∧ own.position = 0 ∧
        own.shift t.position = t) ["\\*".toList, "[b-c]".toList, "+".toList]
        [⟨.symbol '*', 0⟩, ⟨.oneOf [⟨'b', 3⟩, ⟨'c', 3⟩], 2⟩, ⟨.quantifier .plus, 7⟩] := by
  have hscan : scan "\\*[b-c]+".toList =
      .ok [⟨.symbol '*', 0⟩, ⟨.oneOf [⟨'b', 3⟩, ⟨'c', 3⟩], 2⟩, ⟨.quantifier .plus, 7⟩] := by
    decide +kernel
  obtain ⟨hread, hrefused, -, -, -, hpieces⟩ := scan_pieces hscan
  exact ⟨hscan, hread _ [⟨.oneOf [⟨'d', 1⟩], 0⟩] (by decide +kernel),
    hrefused _ ⟨2, .invalidRange 'z' 'b'⟩ (by decide +kernel), hpieces⟩

end Token

end RegexEquiv
