import RegexEquiv.Proofs.Token.Shift
import RegexEquiv.Proofs.Token.Spelling

/-!
# Tokens written out

A list of tokens can be written out as a text: a symbol bare or behind a backslash, an operator as
its character, and a class item by item, every symbol in it behind a backslash. Splitting the text
gives the tokens back, each at the offset where it was written (`Token.scan_text`). The reader of a
class may hold back its last item, since a hyphen could follow, and what it holds back counts as
read (`Scan.exists_scanFrom_items`).
-/

namespace RegexEquiv

/-- An item of a class: a symbol, or the symbols from one to another. -/
inductive ClassItem where
  | single (c : Char)
  | range (lo hi : Char) (ordered : lo ≤ hi)

namespace ClassItem

/-- An item as it is written out. -/
def text : ClassItem → List Char
  | single c => ['\\', c]
  | range lo hi _ => ['\\', lo, '-', '\\', hi]

/-- The symbols of an item, in order. -/
def symbols : ClassItem → List Char
  | single c => [c]
  | range lo hi _ => Text.interval lo hi

/-- Whether a symbol belongs to an item. -/
def Covers : ClassItem → Char → Prop
  | single c, symbol => symbol = c
  | range lo hi _, symbol => lo ≤ symbol ∧ symbol ≤ hi

/-- The symbols of some items that are written one behind another from an offset on, each with the
offset of its item. -/
def membersFrom : Nat → List ClassItem → List ClassMember
  | _, [] => []
  | offset, item :: items =>
      item.symbols.map (⟨·, offset⟩) ++ membersFrom (offset + item.text.length) items

theorem mem_symbols {item : ClassItem} {c : Char} : c ∈ item.symbols ↔ item.Covers c := by
  cases item with
  | single => exact List.mem_singleton
  | range => exact Text.mem_interval

/-- The symbols of an item are listed in strictly increasing order. -/
theorem pairwise_symbols (item : ClassItem) : item.symbols.Pairwise (· < ·) := by
  cases item with
  | single => exact List.pairwise_singleton _ _
  | range => exact Text.pairwise_interval _ _

theorem membersFrom_shift (offset start : Nat) (items : List ClassItem) :
    membersFrom (offset + start) items =
      (membersFrom start items).map (ClassMember.shift offset) := by
  induction items generalizing start with
  | nil => rfl
  | cons item items ih =>
      rw [membersFrom, membersFrom, List.map_append, List.map_map, ← ih, Nat.add_assoc]
      rfl

end ClassItem

/-- A token to be written out. -/
inductive Lexeme where
  /-- A symbol, as it is. -/
  | bare (c : Char) (unreserved : Token.isReserved c = false)
  /-- A symbol, behind a backslash. -/
  | escaped (c : Char)
  | wildcard
  | quantifier (q : Quantifier)
  | bar
  | opening
  | closing
  | oneOf (items : List ClassItem)

namespace Lexeme

/-- A token as it is written out. -/
def text : Lexeme → List Char
  | bare c _ => [c]
  | escaped c => ['\\', c]
  | wildcard => ['.']
  | quantifier .star => ['*']
  | quantifier .plus => ['+']
  | quantifier .optional => ['?']
  | bar => ['|']
  | opening => ['(']
  | closing => [')']
  | oneOf items => '[' :: items.flatMap ClassItem.text ++ [']']

/-- The kind of a token that is written out from an offset on. -/
def kindFrom (offset : Nat) : Lexeme → TokenKind
  | bare c _ | escaped c => .symbol c
  | wildcard => .wildcard
  | quantifier q => .quantifier q
  | bar => .bar
  | opening => .opening
  | closing => .closing
  | oneOf items => .oneOf (ClassItem.membersFrom (offset + 1) items)

/-- Some tokens that are written out one behind another from an offset on. -/
def tokensFrom : Nat → List Lexeme → List Token
  | _, [] => []
  | offset, lexeme :: lexemes =>
      ⟨lexeme.kindFrom offset, offset⟩ :: tokensFrom (offset + lexeme.text.length) lexemes

theorem kindFrom_shift (offset start : Nat) (lexeme : Lexeme) :
    lexeme.kindFrom (offset + start) = (lexeme.kindFrom start).shift offset := by
  cases lexeme with
  | oneOf items =>
      show TokenKind.oneOf (ClassItem.membersFrom (offset + start + 1) items) = .oneOf _
      rw [Nat.add_assoc, ClassItem.membersFrom_shift]
  | _ => rfl

theorem tokensFrom_shift (offset start : Nat) (lexemes : List Lexeme) :
    tokensFrom (offset + start) lexemes = (tokensFrom start lexemes).map (Token.shift offset) := by
  induction lexemes generalizing start with
  | nil => rfl
  | cons lexeme lexemes ih =>
      rw [tokensFrom, tokensFrom, List.map_cons, ← ih, Nat.add_assoc, kindFrom_shift]
      rfl

end Lexeme

namespace Scan

open Token (scanFrom)

/-! ## Items of a class -/

variable {position opened : Nat} {members : List ClassMember} {pending : Pending}
  {tokens : List Token}

/-- An escaped character in a class, unless it ends a range, is an item that is held back. -/
theorem scanFrom_single (hpending : ∀ m hyphen, pending ≠ .hyphen m hyphen) (c : Char) :
    scanFrom ⟨position, none, .inClass opened members pending, tokens⟩ ['\\', c] =
      .ok ⟨position + 2, none, .inClass opened (members ++ pending.members) (.item ⟨c, position⟩),
        tokens⟩ := by
  have hread : Scan.read ⟨position + 2, none, .inClass opened members pending, tokens⟩ position
      (.escaped c) = .ok ⟨position + 2, none,
        .inClass opened (members ++ pending.members) (.item ⟨c, position⟩), tokens⟩ :=
    read_eq_ok_iff.2 (.item opened members pending rfl nofun hpending fun _ _ => nofun)
  show Scan.read _ position (.escaped c) >>= pure = _
  rw [hread]
  rfl

/-- Behind an item that is held back, a hyphen and an escaped character make a range of it. -/
theorem scanFrom_range {lo hi : Char} (hle : lo ≤ hi) (start : Nat) :
    scanFrom ⟨position, none, .inClass opened members (.item ⟨lo, start⟩), tokens⟩
        ['-', '\\', hi] =
      .ok ⟨position + 3, none,
        .inClass opened (members ++ (Text.interval lo hi).map (⟨·, start⟩)) .nothing, tokens⟩ := by
  have hread : Scan.read ⟨position + 3, none, .inClass opened members
      (.hyphen ⟨lo, start⟩ position), tokens⟩ (position + 1) (.escaped hi) =
      .ok ⟨position + 3, none,
        .inClass opened (members ++ (Text.interval lo hi).map (⟨·, start⟩)) .nothing, tokens⟩ :=
    read_eq_ok_iff.2 (.range opened members _ position _ rfl nofun
      (range_eq_ok_iff.2 ⟨hle, rfl⟩))
  show Scan.read ⟨position + 3, none, .inClass opened members (.hyphen ⟨lo, start⟩ position),
    tokens⟩ (position + 1) (.escaped hi) >>= pure = _
  rw [hread]
  rfl

/-- Items that are written out in a class are read, the last of them perhaps held back. -/
theorem exists_scanFrom_items (position : Nat) (members : List ClassMember) (pending : Pending)
    (hpending : ∀ m hyphen, pending ≠ .hyphen m hyphen) (items : List ClassItem) :
    ∃ members' pending',
      members' ++ pending'.members =
        members ++ pending.members ++ ClassItem.membersFrom position items ∧
      scanFrom ⟨position, none, .inClass opened members pending, tokens⟩
          (items.flatMap ClassItem.text) =
        .ok ⟨position + (items.flatMap ClassItem.text).length, none,
          .inClass opened members' pending', tokens⟩ := by
  induction items generalizing position members pending with
  | nil => exact ⟨members, pending, (List.append_nil _).symm, rfl⟩
  | cons item items ih =>
      rw [List.flatMap_cons, Token.scanFrom_append, List.length_append, ← Nat.add_assoc,
        ClassItem.membersFrom]
      cases item with
      | single c =>
          obtain ⟨members', pending', hmembers, hscan⟩ :=
            ih (position + 2) (members ++ pending.members) (.item ⟨c, position⟩) nofun
          refine ⟨members', pending', ?_, ?_⟩
          · rw [hmembers, List.append_assoc (members ++ pending.members)]
            rfl
          · rw [ClassItem.text, scanFrom_single hpending]
            exact hscan
      | range lo hi hle =>
          obtain ⟨members', pending', hmembers, hscan⟩ := ih (position + 5)
            (members ++ pending.members ++ (Text.interval lo hi).map (⟨·, position⟩)) .nothing nofun
          refine ⟨members', pending', ?_, ?_⟩
          · rw [hmembers, ← List.append_assoc]
            exact congrArg (· ++ _) (List.append_nil _)
          · have hitem : scanFrom ⟨position, none, .inClass opened members pending, tokens⟩
                ['\\', lo, '-', '\\', hi] =
                .ok ⟨position + 5, none, .inClass opened (members ++ pending.members ++
                  (Text.interval lo hi).map (⟨·, position⟩)) .nothing, tokens⟩ := by
              show scanFrom _ (['\\', lo] ++ ['-', '\\', hi]) = _
              rw [Token.scanFrom_append, scanFrom_single hpending]
              exact scanFrom_range hle position
            rw [ClassItem.text, hitem]
            exact hscan

end Scan

namespace Token

/-! ## Tokens -/

/-- A bare character that is not reserved is read as a symbol. -/
theorem scan_bare {c : Char} (unreserved : isReserved c = false) :
    scan [c] = .ok [⟨.symbol c, 0⟩] := by
  have hfree : ¬ isReserved c = true := by simp [unreserved]
  have hkind := kindOf_of_not_isReserved hfree
  have hc := not_mem_delimiters hfree
  simp only [delimiters, List.mem_cons, not_or] at hc
  have hstep : Scan.start.step c = .ok ⟨1, none, .between, [⟨Scan.kindOf c, 0⟩]⟩ :=
    Scan.step_eq_ok_iff.2 (.ends 0 (.bare c) _ (.bare rfl hc.1)
      (.token rfl fun hglyph => hc.2.1 (Glyph.bare.inj hglyph)))
  rw [scan, scanFrom_singleton, hstep, ← hkind]
  rfl

/-- A class that is written out is read. -/
theorem scan_class (items : List ClassItem) :
    scan ('[' :: items.flatMap ClassItem.text ++ [']']) =
      .ok [⟨.oneOf (ClassItem.membersFrom 1 items), 0⟩] := by
  obtain ⟨members, pending, hmembers, hscan⟩ := Scan.exists_scanFrom_items 1 [] .nothing nofun items
  have hopening : scanFrom .start ('[' :: items.flatMap ClassItem.text) =
      .ok ⟨1 + (items.flatMap ClassItem.text).length, none, .inClass 0 members pending, []⟩ := hscan
  have hclosing : Scan.step ⟨1 + (items.flatMap ClassItem.text).length, none,
      .inClass 0 members pending, []⟩ ']' = .ok ⟨1 + (items.flatMap ClassItem.text).length + 1,
        none, .between, [⟨.oneOf (members ++ pending.members), 0⟩]⟩ := rfl
  rw [scan, scanFrom_concat_eq_ok_iff.2 ⟨_, hopening, hclosing⟩]
  show Except.ok [Token.mk (.oneOf (members ++ pending.members)) 0] = _
  rw [hmembers]
  rfl

/-- A token that is written out is read. -/
theorem scan_lexeme (lexeme : Lexeme) : scan lexeme.text = .ok [⟨lexeme.kindFrom 0, 0⟩] := by
  cases lexeme with
  | bare c unreserved => exact scan_bare unreserved
  | escaped | wildcard | bar | opening | closing => rfl
  | quantifier q => cases q <;> rfl
  | oneOf items => exact scan_class items

/-- Tokens that are written out one behind another are read as these tokens, each at the offset
where it was written. A class has the symbols of its items in order, each at the offset of its item;
the symbols of an item are those that it covers, in strictly increasing order. -/
theorem scan_text (lexemes : List Lexeme) :
    scan (lexemes.flatMap Lexeme.text) = .ok (Lexeme.tokensFrom 0 lexemes) ∧
      ∀ item : ClassItem,
        item.symbols.Pairwise (· < ·) ∧ ∀ c, c ∈ item.symbols ↔ item.Covers c := by
  refine ⟨?_, fun item => ⟨item.pairwise_symbols, fun c => ClassItem.mem_symbols⟩⟩
  induction lexemes with
  | nil => rfl
  | cons lexeme lexemes ih =>
      rw [List.flatMap_cons, scan_append (scan_lexeme lexeme), ih, Lexeme.tokensFrom,
        Nat.zero_add, ← Nat.add_zero lexeme.text.length, Lexeme.tokensFrom_shift]
      rfl

/-- A class with the range from plus to hyphen and a bracket, then a hyphen. -/
example : scan "[\\+-\\-\\]]\\-".toList = .ok [⟨.oneOf [⟨'+', 1⟩, ⟨',', 1⟩, ⟨'-', 1⟩, ⟨']', 6⟩], 0⟩,
    ⟨.symbol '-', 9⟩] := by
  decide +kernel

end Token

end RegexEquiv
