import RegexEquiv.Proofs.Regex.Step
import RegexEquiv.Proofs.Word.Order

/-!
# The symbols of a parsed pattern

The reader refuses symbols outside the alphabet, so what it builds is over the alphabet
(`Regex.over_of_parse`), and so are all words of the language (`Regex.Matches.over`). The proof
carries the property through one step of the reader (`Reader.Over.step`), which carries it through
all tokens.
-/

namespace RegexEquiv

variable {alphabet : Alphabet}

namespace Regex

/-- All symbols of an expression are in an alphabet. -/
def Over (alphabet : Alphabet) (r : Regex) : Prop := ∀ c ∈ r.leaves, c ∈ alphabet

/-- The words of an expression over an alphabet are over the alphabet. -/
theorem Matches.over {r : Regex} {w : Word} (hr : r.Over alphabet) (h : r.Matches w) :
    Word.Over alphabet w := by
  induction h with
  | epsilon | starNil => exact Word.over_nil alphabet
  | symbol c =>
      intro d hd
      exact hr d hd
  | cat _ _ ihl ihr =>
      intro c hc
      obtain hc | hc := List.mem_append.1 hc
      · exact ihl (fun d hd => hr d (List.mem_append_left _ hd)) c hc
      · exact ihr (fun d hd => hr d (List.mem_append_right _ hd)) c hc
  | altLeft _ ih => exact ih fun d hd => hr d (List.mem_append_left _ hd)
  | altRight _ ih => exact ih fun d hd => hr d (List.mem_append_right _ hd)
  | starAppend _ _ ihl ihr | plus _ _ ihl ihr =>
      intro c hc
      obtain hc | hc := List.mem_append.1 hc
      · exact ihl hr c hc
      · exact ihr hr c hc

/-! ## What the builders keep -/

/-- What holds of the unit and of all members of a chain, and is kept when two trees are joined,
holds of the balanced tree. -/
theorem balanced_induction {P : Regex → Prop} {join : Regex → Regex → Regex} {unit : Regex}
    (hunit : P unit) (hjoin : ∀ left right, P left → P right → P (join left right))
    {chain : List Regex} (hchain : ∀ r ∈ chain, P r) : P (balanced join unit chain) := by
  fun_induction balanced join unit chain with
  | case1 => exact hunit
  | case2 r => exact hchain r (List.mem_singleton.2 rfl)
  | case3 r s rest half ihl ihr =>
      exact hjoin _ _ (ihl fun t ht => hchain t (List.mem_of_mem_take ht))
        (ihr fun t ht => hchain t (List.mem_of_mem_drop ht))

theorem over_empty : Over alphabet empty := nofun

theorem over_epsilon : Over alphabet epsilon := nofun

theorem over_cat (left right : Regex) (hleft : left.Over alphabet) (hright : right.Over alphabet) :
    (cat left right).Over alphabet := by
  intro c hc
  obtain hc | hc := List.mem_append.1 hc
  · exact hleft c hc
  · exact hright c hc

theorem over_alt (left right : Regex) (hleft : left.Over alphabet) (hright : right.Over alphabet) :
    (alt left right).Over alphabet :=
  over_cat left right hleft hright

/-- A choice among symbols of the alphabet is over the alphabet. -/
theorem over_oneOf {symbols : Alphabet} (h : ∀ c ∈ symbols, c ∈ alphabet) :
    (oneOf symbols).Over alphabet := by
  refine balanced_induction over_empty over_alt fun r hr => ?_
  obtain ⟨c, hc, rfl⟩ := List.mem_map.1 hr
  intro d hd
  obtain rfl := List.mem_singleton.1 hd
  exact h d hc

end Regex

/-- A quantifier changes no symbols. -/
theorem Quantifier.leaves_apply (q : Quantifier) (r : Regex) : (q.apply r).leaves = r.leaves := by
  cases q with
  | star =>
      show (Regex.repeated r).leaves = r.leaves
      unfold Regex.repeated
      split <;> rfl
  | plus =>
      show (Regex.repeatedOnce r).leaves = r.leaves
      unfold Regex.repeatedOnce
      split <;> rfl
  | optional =>
      show (Regex.optional r).leaves = r.leaves
      unfold Regex.optional
      split <;> simp [Regex.leaves]

/-! ## What the reader keeps -/

/-- All that has been read of a group is over an alphabet. -/
def Group.Over (alphabet : Alphabet) (group : Group) : Prop :=
  ∀ r ∈ group.alternatives ++ group.factors, r.Over alphabet

namespace Group

theorem over_start : Over alphabet start := nofun

theorem Over.push {group : Group} (h : group.Over alphabet) {r : Regex} (hr : r.Over alphabet) :
    (group.push r).Over alphabet := by
  intro s hs
  simp only [Group.push, List.mem_append, List.mem_cons] at hs
  obtain hs | rfl | hs := hs
  · exact h s (List.mem_append_left _ hs)
  · exact hr
  · exact h s (List.mem_append_right _ hs)

theorem Over.alternative {group : Group} (h : group.Over alphabet) :
    group.alternative.Over alphabet :=
  Regex.balanced_induction Regex.over_epsilon Regex.over_cat fun r hr =>
    h r (List.mem_append_right _ (List.mem_reverse.1 hr))

theorem Over.endAlternative {group : Group} (h : group.Over alphabet) :
    group.endAlternative.Over alphabet := by
  intro r hr
  simp only [Group.endAlternative, List.append_nil, List.mem_cons] at hr
  obtain rfl | hr := hr
  · exact h.alternative
  · exact h r (List.mem_append_left _ hr)

theorem Over.close {group : Group} (h : group.Over alphabet) : group.close.Over alphabet := by
  refine Regex.balanced_induction Regex.over_epsilon Regex.over_alt fun r hr => ?_
  obtain rfl | hr := List.mem_cons.1 (List.mem_reverse.1 hr)
  · exact h.alternative
  · exact h r (List.mem_append_left _ hr)

end Group

/-- What a token over an alphabet writes on its own is over the alphabet. -/
theorem TokenKind.over_of_factor? {kind : TokenKind} {f : Grammar.Factor}
    (hf : kind.factor? = some f) (hover : kind.Over alphabet) :
    (f.tree .compact alphabet).Over alphabet := by
  cases kind with
  | symbol c =>
      obtain rfl := Option.some.inj hf
      exact hover
  | oneOf members =>
      obtain rfl := Option.some.inj hf
      exact Regex.over_oneOf fun c hc => hover c (SortedSet.mem_ofList.1 hc)
  | wildcard =>
      obtain rfl := Option.some.inj hf
      rw [Grammar.Factor.tree_wildcard]
      exact Regex.over_oneOf fun _ hc => hc
  | _ => cases hf

namespace Reader

/-- All that a reader has read is over an alphabet. -/
structure Over (alphabet : Alphabet) (reader : Reader) : Prop where
  current : reader.current.Over alphabet
  enclosing : ∀ entry ∈ reader.enclosing, entry.2.Over alphabet

theorem Over.push {reader : Reader} (h : reader.Over alphabet) {r : Regex}
    (hr : r.Over alphabet) : (reader.push r).Over alphabet :=
  ⟨h.current.push hr, h.enclosing⟩

/-- One token keeps all that has been read over the alphabet. -/
theorem Over.step {reader next : Reader} {token : Token} (h : reader.Over alphabet)
    (hstep : reader.step alphabet token = .ok next) : next.Over alphabet := by
  cases step_eq_ok_iff.1 hstep with
  | operand f hf hover => exact h.push (TokenKind.over_of_factor? hf hover)
  | quantifier q r rest _ hfactors =>
      refine ⟨fun s hs => ?_, h.enclosing⟩
      simp only [List.mem_append, List.mem_cons] at hs
      obtain hs | rfl | hs := hs
      · exact h.current s (List.mem_append_left _ hs)
      · intro c hc
        rw [Quantifier.leaves_apply] at hc
        exact h.current r (by simp [hfactors]) c hc
      · exact h.current s (by simp [hfactors, hs])
  | bar => exact ⟨h.current.endAlternative, h.enclosing⟩
  | opening =>
      refine ⟨Group.over_start, fun entry hentry => ?_⟩
      obtain rfl | hentry := List.mem_cons.1 hentry
      · exact h.current
      · exact h.enclosing entry hentry
  | closing position group rest _ henclosing =>
      have hgroup := h.enclosing (position, group) (by simp [henclosing])
      exact ⟨hgroup.push h.current.close, fun entry hentry =>
        h.enclosing entry (by simp [henclosing, hentry])⟩

end Reader

/-- What tokens write over an alphabet is over the alphabet. -/
theorem Regex.over_of_ofTokens {tokens : List Token} {r : Regex}
    (h : ofTokens alphabet tokens = .ok r) : r.Over alphabet := by
  rw [ofTokens_eq] at h
  obtain ⟨final, hrun, hfinish⟩ := Except.bind_eq_ok_iff.1 h
  have hstart : Reader.start.Over alphabet := ⟨Group.over_start, nofun⟩
  have hfinal : final.Over alphabet := Except.foldlM_keeps Reader.Over.step hstart hrun
  unfold Reader.finish at hfinish
  split at hfinish
  · obtain rfl := Except.ok.inj hfinish
    exact hfinal.current.close
  · cases hfinish

/-- What a pattern writes over an alphabet is over the alphabet. -/
theorem Regex.over_of_parse {pattern : List Char} {r : Regex}
    (h : parse pattern alphabet = .ok r) : r.Over alphabet := by
  obtain ⟨tokens, -, hr⟩ := parse_eq_ok_iff.1 h
  exact over_of_ofTokens hr

end RegexEquiv
