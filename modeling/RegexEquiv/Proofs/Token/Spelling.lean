import RegexEquiv.Proofs.Except
import RegexEquiv.Regex.Printer
import RegexEquiv.Token.Scan

/-!
# Texts that spell tokens

`Spells text kinds` says that a text is split into tokens of certain kinds, whatever has been read
before it and without leaving a class or a backslash open behind it. Such texts can be put one after
another (`Spells.append`). How deep a text nests is told by going through it and counting the
parentheses that are open (`mostOpen`). A text that closes every parenthesis that it opens adds the
same depth wherever it stands (`Nests`).
-/

namespace RegexEquiv

namespace Token

/-- The characters that begin or end something: an escape, a class or a group. -/
def delimiters : List Char := ['\\', '[', '(', ')']

theorem not_mem_delimiters {c : Char} (h : ¬ isReserved c = true) : c ∉ delimiters := fun hc =>
  h (List.all_eq_true.1 (show delimiters.all isReserved = true from rfl) c hc)

/-! ## Tokens -/

/-- `Spells text kinds` says that a text between two tokens is read as tokens of the given kinds. -/
def Spells (text : List Char) (kinds : List TokenKind) : Prop :=
  ∀ (position : Nat) (read : List Token), ∃ tokens : List Token,
    tokens.map (·.kind) = kinds ∧
    scanFrom ⟨position, none, .between, read⟩ text =
      .ok ⟨position + text.length, none, .between, tokens.reverse ++ read⟩

variable {text more : List Char} {kinds others : List TokenKind}

theorem spells_nil : Spells [] [] := fun _ _ => ⟨[], rfl, rfl⟩

theorem Spells.append (h : Spells text kinds) (h' : Spells more others) :
    Spells (text ++ more) (kinds ++ others) := by
  intro position read
  obtain ⟨tokens, rfl, hscan⟩ := h position read
  obtain ⟨behind, rfl, hscan'⟩ := h' (position + text.length) (tokens.reverse ++ read)
  refine ⟨tokens ++ behind, List.map_append, ?_⟩
  rw [scanFrom_append, hscan]
  show scanFrom _ more = _
  rw [hscan', List.length_append, List.reverse_append, Nat.add_assoc, List.append_assoc]

/-- A bare character that does not begin or end anything is a token of its own. -/
theorem spells_bare {c : Char} (h : c ∉ delimiters) : Spells [c] [Scan.kindOf c] := by
  intro position read
  simp only [delimiters, List.mem_cons, not_or] at h
  obtain ⟨hescape, hclass, -⟩ := h
  refine ⟨[⟨Scan.kindOf c, position⟩], rfl, ?_⟩
  show Scan.step ⟨position, none, .between, read⟩ c >>= pure = _
  simp only [Scan.step, if_neg hescape, Scan.read]
  rfl

/-- An escaped character is a symbol. -/
theorem spells_escaped (c : Char) : Spells ['\\', c] [.symbol c] := fun position _ =>
  ⟨[⟨.symbol c, position⟩], rfl, rfl⟩

/-- Brackets with nothing between them are the class without members. -/
theorem spells_brackets : Spells ['[', ']'] [.oneOf []] := fun position _ =>
  ⟨[⟨.oneOf [], position⟩], rfl, rfl⟩

theorem kindOf_of_not_isReserved {c : Char} (h : ¬ isReserved c = true) :
    Scan.kindOf c = .symbol c := by
  unfold Scan.kindOf
  split <;> first | rfl | exact (h rfl).elim

theorem spells_printSymbol (c : Char) : Spells (Regex.printSymbol c) [.symbol c] := by
  unfold Regex.printSymbol
  split
  · exact spells_escaped c
  · rename_i hc
    rw [← kindOf_of_not_isReserved hc]
    exact spells_bare (not_mem_delimiters hc)

theorem Spells.group (h : Spells text kinds) :
    Spells ('(' :: text ++ [')']) (.opening :: kinds ++ [.closing]) := by
  have hopening : Spells ['('] [.opening] := fun position _ => ⟨[⟨.opening, position⟩], rfl, rfl⟩
  have hclosing : Spells [')'] [.closing] := fun position _ => ⟨[⟨.closing, position⟩], rfl, rfl⟩
  exact (hopening.append h).append hclosing

/-- A text that spells tokens is split into such tokens. -/
theorem Spells.scan (h : Spells text kinds) :
    ∃ tokens, Token.scan text = .ok tokens ∧ tokens.map (·.kind) = kinds := by
  obtain ⟨tokens, hkinds, hscan⟩ := h 0 []
  refine ⟨tokens, ?_, hkinds⟩
  unfold Token.scan Scan.start
  rw [hscan, List.append_nil]
  show Except.ok tokens.reverse.reverse = _
  rw [List.reverse_reverse]

/-! ## Depth -/

/-- The largest number of parentheses that are open at once in a text before which some are open.
Parentheses behind a backslash do not count. The number grows until a parenthesis closes or the text
ends, so it is looked at there. -/
def mostOpen (opened : Nat) : List Char → Nat
  | [] => opened
  | '\\' :: _ :: rest => mostOpen opened rest
  | '(' :: rest => mostOpen (opened + 1) rest
  | ')' :: rest => max opened (mostOpen (opened - 1) rest)
  | _ :: rest => mostOpen opened rest

/-- `Nests text depth` says that a text closes the parentheses that it opens, and that there are at
most so many of them open at once. -/
def Nests (text : List Char) (depth : Nat) : Prop :=
  ∀ opened more, mostOpen opened (text ++ more) = max (opened + depth) (mostOpen opened more)

theorem le_mostOpen (opened : Nat) (text : List Char) : opened ≤ mostOpen opened text := by
  fun_induction mostOpen opened text with
  | case1 => exact Nat.le_refl _
  | case2 opened c rest ih => exact ih
  | case3 opened rest ih => exact Nat.le_of_succ_le ih
  | case4 opened rest ih => exact Nat.le_max_left _ _
  | case5 opened c rest _ _ _ ih => exact ih

variable {d e : Nat}

theorem nests_nil : Nests [] 0 := fun opened more =>
  (Nat.max_eq_right (le_mostOpen opened more)).symm

theorem Nests.append (h : Nests text d) (h' : Nests more e) : Nests (text ++ more) (max d e) := by
  intro opened rest
  rw [List.append_assoc, h, h', ← Nat.max_assoc, Nat.add_max_add_left]

theorem nests_bare {c : Char} (h : c ∉ delimiters) : Nests [c] 0 := by
  intro opened more
  simp only [delimiters, List.mem_cons, List.not_mem_nil, not_or] at h
  obtain ⟨hescape, -, hopening, hclosing, -⟩ := h
  have hskip : mostOpen opened (c :: more) = mostOpen opened more := by
    rw [mostOpen]
    · exact fun _ _ hc _ => hescape hc
    · exact hopening
    · exact hclosing
  exact hskip.trans (Nat.max_eq_right (le_mostOpen opened more)).symm

theorem nests_escaped (c : Char) : Nests ['\\', c] 0 := fun opened more =>
  (Nat.max_eq_right (le_mostOpen opened more)).symm

theorem nests_brackets : Nests ['[', ']'] 0 := fun opened more =>
  (Nat.max_eq_right (le_mostOpen opened more)).symm

theorem nests_printSymbol (c : Char) : Nests (Regex.printSymbol c) 0 := by
  unfold Regex.printSymbol
  split
  · exact nests_escaped c
  · rename_i hc
    exact nests_bare (not_mem_delimiters hc)

theorem Nests.group (h : Nests text d) : Nests ('(' :: text ++ [')']) (d + 1) := by
  intro opened more
  show mostOpen (opened + 1) (text ++ [')'] ++ more) = _
  rw [List.append_assoc, h]
  show max (opened + 1 + d) (max (opened + 1) (mostOpen opened more)) = _
  omega

theorem Nests.mostOpen_eq (h : Nests text d) : mostOpen 0 text = d := by
  have hall := h 0 []
  rw [List.append_nil] at hall
  rw [hall]
  show max (0 + d) 0 = d
  omega

end Token

end RegexEquiv
