import RegexEquiv.Token.Basic

/-!
# Groups among tokens

Behind some tokens as many groups are open as have been opened and not closed (`openGroups`). Tokens
are balanced when they close every group that they open and no other. `Opens tokens positions` cuts
tokens into balanced parts with the openings between them that are never closed. It determines how
many groups are open (`Opens.openGroups_eq`) and which of them is the innermost
(`Opens.innermost`). `Climbs tokens depth` says how many groups of balanced tokens are open at once
somewhere among them.
-/

namespace RegexEquiv

namespace Token

/-- How many groups some tokens open. -/
def openings (tokens : List Token) : Nat := tokens.countP (·.kind = .opening)

/-- How many groups some tokens close. -/
def closings (tokens : List Token) : Nat := tokens.countP (·.kind = .closing)

/-- How many groups are open behind some tokens. -/
def openGroups (tokens : List Token) : Nat := openings tokens - closings tokens

/-- `Balanced tokens` says that some tokens close every group that they open, and no group before
it is opened. -/
structure Balanced (tokens : List Token) : Prop where
  settled : openings tokens = closings tokens
  covered : ∀ front back, front ++ back = tokens → closings front ≤ openings front

/-- `Opens tokens positions` says that the groups that some tokens open and do not close are those
at the given positions, innermost first. -/
inductive Opens : List Token → List Nat → Prop where
  | settled {tokens : List Token} : Balanced tokens → Opens tokens []
  | opened {before after : List Token} {token : Token} {positions : List Nat} :
      Opens before positions → token.kind = .opening → Balanced after →
      Opens (before ++ token :: after) (token.position :: positions)

variable {tokens more before after : List Token} {token : Token} {positions : List Nat}

theorem openings_append : openings (tokens ++ more) = openings tokens + openings more :=
  List.countP_append

theorem closings_append : closings (tokens ++ more) = closings tokens + closings more :=
  List.countP_append

theorem openings_cons_opening (h : token.kind = .opening) :
    openings (token :: more) = openings more + 1 :=
  List.countP_cons_of_pos (by simpa using h)

theorem openings_cons (h : token.kind ≠ .opening) : openings (token :: more) = openings more :=
  List.countP_cons_of_neg (by simpa using h)

theorem closings_cons_closing (h : token.kind = .closing) :
    closings (token :: more) = closings more + 1 :=
  List.countP_cons_of_pos (by simpa using h)

theorem closings_cons (h : token.kind ≠ .closing) : closings (token :: more) = closings more :=
  List.countP_cons_of_neg (by simpa using h)

/-! ## Balanced tokens -/

theorem balanced_nil : Balanced [] where
  settled := rfl
  covered front back h := by
    obtain ⟨rfl, -⟩ := List.append_eq_nil_iff.1 h
    exact Nat.le_refl _

theorem Balanced.append (h : Balanced tokens) (h' : Balanced more) :
    Balanced (tokens ++ more) where
  settled := by
    rw [openings_append, closings_append, h.settled, h'.settled]
  covered front back hsplit := by
    obtain ⟨mid, hmid, -⟩ | ⟨mid, rfl, hmid⟩ := List.append_eq_append_iff.1 hsplit
    · exact h.covered front mid hmid.symm
    · rw [openings_append, closings_append, h.settled]
      exact Nat.add_le_add_left (h'.covered mid back hmid.symm) _

/-- A token that neither opens nor closes a group is balanced. -/
theorem balanced_singleton (ho : token.kind ≠ .opening) (hc : token.kind ≠ .closing) :
    Balanced [token] where
  settled := by
    rw [openings_cons ho, closings_cons hc]
    rfl
  covered front back hsplit := by
    have hnone : closings [token] = 0 := closings_cons hc
    rw [← hsplit, closings_append] at hnone
    omega

/-- Balanced tokens between parentheses are balanced. -/
theorem Balanced.group {close : Token} (h : Balanced tokens) (ho : token.kind = .opening)
    (hc : close.kind = .closing) : Balanced (token :: tokens ++ [close]) where
  settled := by
    rw [openings_append, closings_append, openings_cons_opening ho, closings_cons (by simp [ho]),
      openings_cons (by simp [hc]), closings_cons_closing hc, h.settled]
    rfl
  covered front back hsplit := by
    cases front with
    | nil => exact Nat.le_refl _
    | cons first front =>
        rw [List.cons_append, List.cons_append, List.cons.injEq] at hsplit
        obtain ⟨rfl, hsplit⟩ := hsplit
        rw [openings_cons_opening ho, closings_cons (by simp [ho])]
        obtain ⟨mid, hmid, -⟩ | ⟨mid, rfl, hmid⟩ := List.append_eq_append_iff.1 hsplit
        · have hcovered := h.covered front mid hmid.symm
          omega
        · -- All of the tokens and perhaps the closing one.
          have hone : closings [close] = 1 := closings_cons_closing hc
          rw [hmid, closings_append] at hone
          rw [openings_append, closings_append, h.settled]
          omega

/-! ## Open groups -/

/-- The tokens open one group for each position more than they close. -/
theorem Opens.openings_eq (h : Opens tokens positions) :
    openings tokens = closings tokens + positions.length := by
  induction h with
  | settled h => exact h.settled
  | opened _ ho hafter ih =>
      rw [openings_append, openings_cons_opening ho, closings_append, closings_cons (by simp [ho]),
        hafter.settled, ih, List.length_cons]
      omega

theorem Opens.openGroups_eq (h : Opens tokens positions) :
    openGroups tokens = positions.length := by
  rw [openGroups, h.openings_eq, Nat.add_sub_cancel_left]

/-- A token that neither opens nor closes a group leaves the same groups open. -/
theorem Opens.concat (h : Opens tokens positions) (ho : token.kind ≠ .opening)
    (hc : token.kind ≠ .closing) : Opens (tokens ++ [token]) positions := by
  have htoken := balanced_singleton ho hc
  cases h with
  | settled h => exact .settled (h.append htoken)
  | opened hbefore hkind hafter =>
      rw [List.append_assoc]
      exact .opened hbefore hkind (hafter.append htoken)

/-- A closing token closes the innermost group. -/
theorem Opens.close {position : Nat} (h : Opens tokens (position :: positions))
    (hc : token.kind = .closing) : Opens (tokens ++ [token]) positions := by
  cases h with
  | @opened before after o _ hbefore ho hafter =>
      have hgroup := hafter.group ho hc
      rw [List.append_assoc]
      cases hbefore with
      | settled hbefore => exact .settled (hbefore.append hgroup)
      | opened houter hkind hbefore =>
          rw [List.append_assoc]
          exact .opened houter hkind (hbefore.append hgroup)

/-- Balanced tokens have no opening one with balanced tokens behind it. -/
theorem Balanced.not_opens (h : Balanced (before ++ token :: after)) (ho : token.kind = .opening)
    (hafter : Balanced after) : False := by
  have hcovered := h.covered before (token :: after) rfl
  have hsettled := h.settled
  rw [openings_append, closings_append, openings_cons_opening ho, closings_cons (by simp [ho]),
    hafter.settled] at hsettled
  omega

/-- The innermost group is opened by the only opening token with balanced tokens behind it. -/
theorem Opens.innermost (h : Opens (before ++ token :: after) positions)
    (ho : token.kind = .opening) (hafter : Balanced after) :
    positions.head? = some token.position := by
  generalize htokens : before ++ token :: after = tokens at h
  cases h with
  | settled h =>
      subst htokens
      exact (h.not_opens ho hafter).elim
  | @opened front back o _ _ hopening hback =>
      -- Of two such tokens the second would lie in the balanced part behind the first.
      obtain ⟨mid, rfl, hmid⟩ | ⟨mid, rfl, hmid⟩ := List.append_eq_append_iff.1 htokens
      · cases mid with
        | nil =>
            obtain ⟨rfl, -⟩ := List.cons.inj hmid
            rfl
        | cons first mid =>
            obtain ⟨rfl, rfl⟩ := List.cons.inj hmid
            exact (hafter.not_opens hopening hback).elim
      · cases mid with
        | nil =>
            obtain ⟨rfl, -⟩ := List.cons.inj hmid
            rfl
        | cons first mid =>
            obtain ⟨rfl, rfl⟩ := List.cons.inj hmid
            exact (hback.not_opens ho hafter).elim

/-! ## Groups open at once -/

/-- `Climbs tokens depth` says that some tokens are balanced, and that so many groups are open
behind some first of them. -/
structure Climbs (tokens : List Token) (depth : Nat) : Prop where
  balanced : Balanced tokens
  reached : ∃ front back, front ++ back = tokens ∧ openings front = closings front + depth

variable {d e : Nat}

theorem Balanced.climbs (h : Balanced tokens) : Climbs tokens 0 := ⟨h, [], tokens, rfl, rfl⟩

theorem Climbs.append (h : Climbs tokens d) (h' : Climbs more e) :
    Climbs (tokens ++ more) (max d e) where
  balanced := h.balanced.append h'.balanced
  reached := by
    by_cases hle : d ≤ e
    · obtain ⟨front, back, rfl, hfront⟩ := h'.reached
      refine ⟨tokens ++ front, back, List.append_assoc _ _ _, ?_⟩
      rw [openings_append, closings_append, h.balanced.settled, hfront, Nat.max_eq_right hle,
        Nat.add_assoc]
    · obtain ⟨front, back, rfl, hfront⟩ := h.reached
      refine ⟨front, back ++ more, (List.append_assoc _ _ _).symm, ?_⟩
      rw [hfront, Nat.max_eq_left (by omega)]

theorem Climbs.group {close : Token} (h : Climbs tokens d) (ho : token.kind = .opening)
    (hc : close.kind = .closing) : Climbs (token :: tokens ++ [close]) (d + 1) where
  balanced := h.balanced.group ho hc
  reached := by
    obtain ⟨front, back, rfl, hfront⟩ := h.reached
    refine ⟨token :: front, back ++ [close], by simp, ?_⟩
    rw [openings_cons_opening ho, closings_cons (by simp [ho]), hfront]
    omega

end Token

end RegexEquiv
