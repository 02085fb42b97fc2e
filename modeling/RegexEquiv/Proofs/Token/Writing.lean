import Mathlib.Data.List.Induction
import RegexEquiv.Proofs.Token.Shift

/-!
# Where tokens are written

Every token stands in the text at its position: an operator as its character, a symbol bare or
behind a backslash, a class from its bracket on, and each member of a class as a glyph or as one
symbol of a range (`Token.Written`). The reader keeps this for all that it has read, also for what a
class holds back and for what a backslash waits for (`Scan.Follows`). So a text that is split into
tokens is written as they say: `Token.written_of_scan`.
-/

namespace RegexEquiv

namespace Text

/-- `Stands part text position` says that a part of a text begins at a position. -/
def Stands (part text : List Char) (position : Nat) : Prop :=
  ∃ before after, before ++ part ++ after = text ∧ before.length = position

variable {part text : List Char} {position : Nat}

theorem stands_end (text part : List Char) : Stands part (text ++ part) text.length :=
  ⟨text, [], List.append_nil _, rfl⟩

/-- A part of a text is a part of the text with more behind it. -/
theorem Stands.append (h : Stands part text position) (more : List Char) :
    Stands part (text ++ more) position := by
  obtain ⟨before, after, rfl, hlength⟩ := h
  exact ⟨before, after ++ more, (List.append_assoc _ _ _).symm, hlength⟩

/-- Where a part begins, the first part of it does. -/
theorem Stands.left {more : List Char} (h : Stands (part ++ more) text position) :
    Stands part text position := by
  obtain ⟨before, after, rfl, hlength⟩ := h
  exact ⟨before, more ++ after, by simp only [List.append_assoc], hlength⟩

theorem Stands.lt_length (h : Stands part text position) (hpart : part ≠ []) :
    position < text.length := by
  obtain ⟨before, after, rfl, rfl⟩ := h
  have hpos := List.length_pos_iff.2 hpart
  simp only [List.length_append]
  omega

end Text

open Text (Stands)

/-- A glyph as it is written. -/
def Glyph.text : Glyph → List Char
  | bare c => [c]
  | escaped c => ['\\', c]

/-- `g.Written text position` says that a glyph stands in a text. A backslash does not stand on its
own. -/
structure Glyph.Written (g : Glyph) (text : List Char) (position : Nat) : Prop where
  stands : Stands g.text text position
  proper : g ≠ .bare '\\'

theorem Glyph.text_ne_nil (g : Glyph) : g.text ≠ [] := by
  cases g with
  | bare | escaped => exact List.cons_ne_nil _ _

/-- Which glyphs make a token of a kind. -/
theorem Glyph.of_kind (g : Glyph) :
    match g.kind with
    | .symbol c => g.char = c
    | .oneOf _ => False
    | .wildcard => g = .bare '.'
    | .quantifier _ => ∃ c ∈ ['*', '+', '?'], g = .bare c
    | .bar => g = .bare '|'
    | .opening => g = .bare '('
    | .closing => g = .bare ')' := by
  cases g with
  | escaped c => exact rfl
  | bare c =>
      simp only [Glyph.kind]
      fun_cases Scan.kindOf c with
      | case4 | case5 | case6 => exact ⟨_, by decide, rfl⟩
      | _ => exact rfl

/-- `m.Written text` says that a member of a class stands at its position, as a glyph or as a symbol
of a range. -/
inductive ClassMember.Written (m : ClassMember) (text : List Char) : Prop where
  | glyph (g : Glyph) : g.char = m.symbol → g.Written text m.position → Written m text
  | range (lo hi : Glyph) : lo.Written text m.position → hi ≠ .bare '\\' →
      Stands (lo.text ++ '-' :: hi.text) text m.position →
      lo.char ≤ m.symbol → m.symbol ≤ hi.char → Written m text

/-- `t.Written text` says that a token stands at its position. -/
inductive Token.Written : Token → List Char → Prop where
  | glyph {text : List Char} {position : Nat} (g : Glyph) : g ≠ .bare '[' →
      g.Written text position → Written ⟨g.kind, position⟩ text
  | oneOf {text : List Char} {members : List ClassMember} {position : Nat} :
      Stands ['['] text position →
      (∀ m ∈ members, position < m.position ∧ m.Written text) →
      Written ⟨.oneOf members, position⟩ text

/-- `pending.Ends opened text` says that a text ends with what a class has not yet turned into
members, behind the bracket that opened the class. -/
inductive Pending.Ends (opened : Nat) : Pending → List Char → Prop where
  | nothing (text : List Char) : Ends opened .nothing text
  | item {before : List Char} (g : Glyph) : g ≠ .bare '\\' → opened < before.length →
      Ends opened (.item ⟨g.char, before.length⟩) (before ++ g.text)
  | hyphen {before : List Char} (g : Glyph) : g ≠ .bare '\\' → opened < before.length →
      Ends opened (.hyphen ⟨g.char, before.length⟩ (before ++ g.text).length)
        (before ++ g.text ++ ['-'])

/-- `mode.Written text` says that the reader stands behind a text between tokens, or in a class that
is written as far as it has been read. -/
inductive ScanMode.Written : ScanMode → List Char → Prop where
  | between (text : List Char) : Written .between text
  | inClass {text : List Char} {opened : Nat} {members : List ClassMember} {pending : Pending} :
      Stands ['['] text opened → (∀ m ∈ members, opened < m.position ∧ m.Written text) →
      pending.Ends opened text → Written (.inClass opened members pending) text

/-- `scan.Written text` says that all that the reader has made of a text is written there. -/
structure Scan.Written (scan : Scan) (text : List Char) : Prop where
  mode : scan.mode.Written text
  tokens : ∀ t ∈ scan.tokens, t.Written text

/-! ## More text -/

section More

variable {text : List Char} (more : List Char)
include more

theorem Glyph.Written.append {g : Glyph} {position : Nat} (h : g.Written text position) :
    g.Written (text ++ more) position := ⟨h.stands.append more, h.proper⟩

theorem ClassMember.Written.append {m : ClassMember} (h : m.Written text) :
    m.Written (text ++ more) := by
  cases h with
  | glyph g hchar hg => exact .glyph g hchar (hg.append more)
  | range lo hi hlo hhi hstands hle hge =>
      exact .range lo hi (hlo.append more) hhi (hstands.append more) hle hge

theorem ClassMember.Written.append_all {opened : Nat} {members : List ClassMember}
    (h : ∀ m ∈ members, opened < m.position ∧ m.Written text) :
    ∀ m ∈ members, opened < m.position ∧ m.Written (text ++ more) :=
  fun m hm => ⟨(h m hm).1, (h m hm).2.append more⟩

theorem Token.Written.append {t : Token} (h : t.Written text) : t.Written (text ++ more) := by
  cases h with
  | glyph g hg hwritten => exact .glyph g hg (hwritten.append more)
  | oneOf hstands hmembers =>
      exact .oneOf (hstands.append more) (ClassMember.Written.append_all more hmembers)

end More

/-- What a class holds back stands at the end of the text. -/
theorem Pending.Ends.written {opened : Nat} {pending : Pending} {text : List Char}
    (h : pending.Ends opened text) :
    ∀ m ∈ pending.members, opened < m.position ∧ m.Written text := by
  cases h with
  | nothing => exact nofun
  | @item before g hproper hlt =>
      exact List.forall_mem_singleton.2
        ⟨hlt, .glyph g rfl ⟨Text.stands_end before g.text, hproper⟩⟩
  | @hyphen before g hproper hlt =>
      have hitem : g.Written (before ++ g.text) before.length :=
        ⟨Text.stands_end before g.text, hproper⟩
      refine List.forall_mem_cons.2 ⟨⟨hlt, .glyph g rfl (hitem.append ['-'])⟩, ?_⟩
      refine List.forall_mem_singleton.2 ⟨?_, ?_⟩
      · show opened < (before ++ g.text).length
        rw [List.length_append]
        exact Nat.lt_add_right _ hlt
      · exact .glyph (.bare '-') rfl ⟨Text.stands_end (before ++ g.text) ['-'], by decide⟩

namespace Scan

variable {text : List Char} {scan next : Scan} {glyph : Glyph} {c : Char}

/-! ## One glyph -/

/-- A glyph that stands behind a text is taken in as it is written. -/
theorem Written.read (h : scan.Written text) (hread : Read scan text.length glyph next)
    (hproper : glyph ≠ .bare '\\') : next.Written (text ++ glyph.text) := by
  have hmode := h.mode
  have htokens : ∀ t ∈ scan.tokens, t.Written (text ++ glyph.text) :=
    fun t ht => (h.tokens t ht).append _
  have hglyph : glyph.Written (text ++ glyph.text) text.length :=
    ⟨Text.stands_end text glyph.text, hproper⟩
  cases hread with
  | opens _ hopen =>
      subst hopen
      exact ⟨.inClass (Text.stands_end text ['[']) nofun (.nothing _), htokens⟩
  | token hbetween hopen =>
      refine ⟨?_, List.forall_mem_cons.2 ⟨.glyph glyph hopen hglyph, htokens⟩⟩
      rw [hbetween]
      exact .between _
  | closes opened members pending hclass =>
      rw [hclass] at hmode
      cases hmode with
      | inClass hstands hmembers hends =>
          refine ⟨.between _, List.forall_mem_cons.2 ⟨.oneOf (hstands.append _) ?_, htokens⟩⟩
          exact ClassMember.Written.append_all _
            (List.forall_mem_append.2 ⟨hmembers, hends.written⟩)
  | hyphen opened members m hclass hhyphen =>
      rw [hclass] at hmode
      subst hhyphen
      cases hmode with
      | inClass hstands hmembers hends =>
          cases hends with
          | item g hg hlt =>
              exact ⟨.inClass (hstands.append _) (ClassMember.Written.append_all _ hmembers)
                (.hyphen g hg hlt), htokens⟩
  | range opened members m hyphen between hclass hclose hrange =>
      rw [hclass] at hmode
      cases hmode with
      | inClass hstands hmembers hends =>
          refine ⟨.inClass (hstands.append _) (List.forall_mem_append.2
            ⟨ClassMember.Written.append_all _ hmembers, ?_⟩) (.nothing _), htokens⟩
          obtain ⟨-, rfl⟩ := range_eq_ok_iff.1 hrange
          cases hends with
          | @hyphen before g hg hlt =>
              have hrange : Text.Stands (g.text ++ '-' :: glyph.text)
                  (before ++ g.text ++ ['-'] ++ glyph.text) before.length :=
                ⟨before, [], by simp, rfl⟩
              intro m' hm'
              obtain ⟨c, hc, rfl⟩ := List.mem_map.1 hm'
              obtain ⟨hle, hge⟩ := Text.mem_interval.1 hc
              exact ⟨hlt, .range g glyph ⟨hrange.left, hg⟩ hproper hrange hle hge⟩
  | item opened members pending hclass =>
      rw [hclass] at hmode
      cases hmode with
      | inClass hstands hmembers hends =>
          refine ⟨.inClass (hstands.append _) (ClassMember.Written.append_all _
            (List.forall_mem_append.2 ⟨hmembers, hends.written⟩)) (.item glyph hproper ?_), htokens⟩
          exact hstands.lt_length (List.cons_ne_nil _ _)

/-! ## All characters -/

/-- `scan.Follows text` says that a reader has read a text, of which all is written up to a
backslash that may wait at its end. -/
inductive Follows (scan : Scan) : List Char → Prop where
  | settled {text : List Char} : scan.position = text.length → scan.escape = none →
      scan.Written text → Follows scan text
  | waiting {text : List Char} : scan.position = text.length + 1 →
      scan.escape = some text.length → scan.Written text → Follows scan (text ++ ['\\'])

theorem follows_start : Follows .start [] :=
  .settled rfl rfl ⟨.between _, nofun⟩

/-- A character that ends a glyph ends it behind what is written. -/
theorem Follows.ends {start : Nat} (h : scan.Follows text) (hends : Ends scan c start glyph) :
    ∃ done, done ++ glyph.text = text ++ [c] ∧ start = done.length ∧ scan.Written done ∧
      scan.position + 1 = (done ++ glyph.text).length ∧ glyph ≠ .bare '\\' := by
  cases h with
  | settled hposition hescape hwritten =>
      cases hends with
      | escaped _ hescape' =>
          rw [hescape] at hescape'
          cases hescape'
      | bare _ hc =>
          refine ⟨text, rfl, hposition, hwritten, ?_, fun heq => hc (Glyph.bare.inj heq)⟩
          rw [hposition, List.length_append]
          rfl
  | @waiting done hposition hescape hwritten =>
      cases hends with
      | bare hescape' =>
          rw [hescape] at hescape'
          cases hescape'
      | escaped _ hescape' =>
          rw [hescape] at hescape'
          obtain rfl := Option.some.inj hescape'
          refine ⟨done, (List.append_assoc done ['\\'] [c]).symm, rfl, hwritten, ?_, nofun⟩
          rw [hposition, List.length_append]
          rfl

/-- What follows a text follows it with one more character. -/
theorem Follows.step (h : scan.Follows text) (hstep : scan.step c = .ok next) :
    next.Follows (text ++ [c]) := by
  cases step_eq_ok_iff.1 hstep with
  | waits hescape hc =>
      subst hc
      cases h with
      | settled hposition _ hwritten =>
          refine .waiting (congrArg (· + 1) hposition) (congrArg some hposition) ?_
          exact ⟨hwritten.mode, hwritten.tokens⟩
      | waiting _ hescape' =>
          rw [hescape'] at hescape
          cases hescape
  | ends start glyph _ hends hread =>
      obtain ⟨done, htext, rfl, hwritten, hposition, hproper⟩ := h.ends hends
      have hpass : scan.pass.Written done := ⟨hwritten.mode, hwritten.tokens⟩
      obtain ⟨hposition', hescape'⟩ := hread.cursor_eq
      rw [← htext]
      exact .settled (hposition'.trans hposition) hescape' (hpass.read hread hproper)

end Scan

namespace Token

variable {text : List Char} {scan : Scan}

theorem follows_of_scanFrom (h : scanFrom .start text = .ok scan) : scan.Follows text := by
  induction text using List.reverseRecOn generalizing scan with
  | nil =>
      obtain rfl := Except.ok.inj h
      exact Scan.follows_start
  | append_singleton text c ih =>
      obtain ⟨mid, hmid, hstep⟩ := scanFrom_concat_eq_ok_iff.1 h
      exact (ih hmid).step hstep

/-- The tokens of a text are written in it. -/
theorem written_of_scan {tokens : List Token} (h : Token.scan text = .ok tokens) :
    ∀ t ∈ tokens, t.Written text := by
  obtain ⟨final, hfinal, hfinish⟩ := Except.bind_eq_ok_iff.1 h
  have hfollows := follows_of_scanFrom hfinal
  rw [Scan.eq_of_finish hfinish] at hfollows
  cases hfollows with
  | settled _ _ hwritten => exact fun t ht => hwritten.tokens t (List.mem_reverse.2 ht)
  | waiting _ hescape => cases hescape

/-- A token that opens a group is a parenthesis. -/
theorem Written.stands_opening {t : Token} (h : t.Written text) (hopening : t.kind = .opening) :
    Stands ['('] text t.position := by
  cases h with
  | oneOf => cases hopening
  | glyph g _ hg =>
      have hkind := g.of_kind
      rw [show g.kind = .opening from hopening] at hkind
      obtain rfl := hkind
      exact hg.stands

end Token

end RegexEquiv
