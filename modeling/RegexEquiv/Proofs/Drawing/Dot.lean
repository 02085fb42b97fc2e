import RegexEquiv.Drawing
import RegexEquiv.Proofs.Except
import RegexEquiv.Proofs.Text.Quoted

/-!
# Drawings can be read back

A library that conforms to the format (`DotLibrary.Conforms`) takes every identifier for a name,
quotes texts so that they can be told from what follows, lays out nodes and edges as the format has
them, and writes statements in their order. All names in a drawing are identifiers
(`Drawing.Statement.isIdentifier_of_mem_names`), so a conforming library never refuses a drawing:
`Drawing.render_eq`. Every statement says where it ends
(`Drawing.Statement.selfDelimiting_text`), so the text of a drawing determines its statements, and
these determine the drawing: `Drawing.render_injective`.
-/

namespace RegexEquiv

open Text (SelfDelimiting)

/-- `library.Conforms` says that a library takes identifiers for names, that its quoted texts can be
told from what follows them, how it lays out nodes and edges, and that it writes statements in
order. -/
structure DotLibrary.Conforms (library : DotLibrary) : Prop where
  identifier : ∀ name, isIdentifier name = true → library.identifier name = .ok ()
  quote : SelfDelimiting library.quote
  node : ∀ name setting, library.node name setting = name ++ setting.text
  bareEdge : ∀ source target, library.edge source target none = source ++ '-' :: '>' :: target
  edge : ∀ source target setting,
    library.edge source target (some setting) = source ++ '-' :: '>' :: target ++ setting.text
  digraph : ∀ title statements, isIdentifier title = true →
    library.digraph title statements = .ok (Drawing.digraph title statements)

theorem DotLibrary.conforms_strict : DotLibrary.strict.Conforms where
  identifier _ h := if_pos h
  quote := Text.selfDelimiting_quoted
  node _ _ := rfl
  bareEdge _ _ := List.append_nil _
  edge _ _ _ := rfl
  digraph _ _ h := if_pos h

namespace Drawing

variable {library : DotLibrary} {drawing drawing' : Drawing} {quote : List Char → List Char}

/-! ## Names -/

/-- The name of a state is an identifier. -/
theorem isIdentifier_stateName (s : Nat) : isIdentifier (stateName s) = true := by
  have hdigit : ∀ c ∈ Nat.toDigits 10 s, c.isDigit = true := fun _ =>
    Nat.isDigit_of_mem_toDigits (by omega) (Nat.le_refl 10)
  have hname : (stateName s).all (fun c => c.isAlphanum || c == '_') = true := by
    refine List.all_eq_true.2 (List.forall_mem_cons.2 ⟨rfl, fun c hc => ?_⟩)
    rw [Char.isAlphanum, hdigit c hc, Bool.or_true, Bool.true_or]
  rw [isIdentifier, hname]
  rfl

/-- The names in a statement are identifiers. -/
theorem Statement.isIdentifier_of_mem_names (statement : Statement) :
    ∀ name ∈ statement.names, isIdentifier name = true := by
  cases statement with
  | entry => decide
  | start s =>
      simp only [names, List.forall_mem_cons]
      exact ⟨by decide, isIdentifier_stateName s, nofun⟩
  | state accepting s =>
      have hshape : isIdentifier (stateShape accepting) = true := by cases accepting <;> decide
      simp only [names, List.forall_mem_cons]
      exact ⟨isIdentifier_stateName s, by decide, hshape, nofun⟩
  | arrow a =>
      simp only [names, List.forall_mem_cons]
      exact ⟨isIdentifier_stateName _, isIdentifier_stateName _, by decide, nofun⟩

/-! ## Layout -/

namespace Statement

/-- The text of a statement, labels being put in quotes. -/
def text (quote : List Char → List Char) : Statement → List Char
  | entry => "entry".toList ++ Setting.text ⟨"shape".toList, "point".toList⟩
  | start s => "entry".toList ++ '-' :: '>' :: stateName s
  | state accepting s => stateName s ++ Setting.text ⟨"shape".toList, stateShape accepting⟩
  | arrow a =>
      stateName a.source ++ '-' :: '>' :: stateName a.target ++
        Setting.text ⟨"label".toList, quote (a.label.flatMap protect)⟩

/-- A conforming library writes the text of a statement. -/
theorem write_eq (h : library.Conforms) (statement : Statement) :
    statement.write library = statement.text library.quote := by
  cases statement with
  | entry => exact h.node _ _
  | start s => exact h.bareEdge _ _
  | state accepting s => exact h.node _ _
  | arrow a => exact h.edge _ _ _

theorem text_entry :
    text quote entry = "entry".toList ++ Setting.text ⟨"shape".toList, "point".toList⟩ := rfl

theorem text_start (s : Nat) : text quote (start s) = "entry".toList ++ '-' :: '>' :: stateName s :=
  rfl

theorem text_state (accepting : Bool) (s : Nat) : text quote (state accepting s) =
    stateName s ++ Setting.text ⟨"shape".toList, stateShape accepting⟩ := rfl

theorem text_arrow (a : Arrow) : text quote (arrow a) =
    stateName a.source ++ '-' :: '>' :: stateName a.target ++
      Setting.text ⟨"label".toList, quote (a.label.flatMap protect)⟩ := rfl

end Statement

theorem map_write (h : library.Conforms) (statements : List Statement) :
    statements.map (·.write library) = statements.map (·.text library.quote) :=
  List.map_congr_left fun statement _ => statement.write_eq h

/-- A conforming library does not refuse a drawing. It writes the statements in order. -/
theorem render_eq (h : library.Conforms) (htitle : isIdentifier drawing.title = true) :
    drawing.render library =
      .ok (digraph drawing.title (drawing.statements.map (·.text library.quote))) := by
  have hnames : ∀ name ∈ drawing.statements.flatMap Statement.names,
      library.identifier name = .ok () := by
    intro name hname
    obtain ⟨statement, -, hname⟩ := List.mem_flatMap.1 hname
    exact h.identifier name (statement.isIdentifier_of_mem_names name hname)
  rw [render, Except.forM_eq_ok hnames, h.identifier _ htitle, map_write h, h.digraph _ _ htitle]
  rfl

/-- The strict library writes a drawing as it is written to files. -/
theorem render_strict (htitle : isIdentifier drawing.title = true) :
    drawing.render .strict = .ok drawing.dot := by
  rw [render_eq DotLibrary.conforms_strict htitle, dot, map_write DotLibrary.conforms_strict]

/-! ## Statements -/

theorem selfDelimiting_protect : SelfDelimiting protect := by
  intro c d x y h
  unfold protect at h
  split at h <;> split at h
  · obtain ⟨rfl, hxy⟩ := List.cons.inj (List.cons.inj h).2
    exact ⟨rfl, hxy⟩
  · rename_i hd
    exact absurd (.inl (List.cons.inj h).1.symm) hd
  · rename_i hc _
    exact absurd (.inl (List.cons.inj h).1) hc
  · exact List.cons.inj h

/-- No protected character begins with a quote. -/
theorem protect_append_ne (c : Char) (x y : List Char) : protect c ++ x ≠ '"' :: y := by
  intro h
  unfold protect at h
  split at h
  · exact absurd (List.cons.inj h).1 (by decide)
  · rename_i hc
    exact hc (.inr (List.cons.inj h).1)

/-- A label can be read back from its protected characters. -/
theorem flatMap_protect_injective {label label' : List Char}
    (h : label.flatMap protect = label'.flatMap protect) : label = label' :=
  (selfDelimiting_protect.flatMap_append_cons_inj protect_append_ne
    (congrArg (· ++ '"' :: []) h)).1

/-- The name of a state is told from the mark that follows it. -/
theorem stateName_append_cons_inj {s t : Nat} {c d : Char} {x y : List Char}
    (hc : c ∈ ['[', '-', ';']) (hd : d ∈ ['[', '-', ';'])
    (h : stateName s ++ c :: x = stateName t ++ d :: y) : s = t ∧ c = d ∧ x = y := by
  have hmark : ∀ c ∈ ['[', '-', ';'], ∀ k, Nat.digitChar k ≠ c := by
    simp only [List.forall_mem_cons]
    exact ⟨fun _ => Nat.digitChar_ne _ rfl, fun _ => Nat.digitChar_ne _ rfl,
      fun _ => Nat.digitChar_ne _ rfl, nofun⟩
  exact Text.toDigits_append_cons_inj (by omega) (by omega) (hmark c hc) (hmark d hd)
    (List.cons.inj h).2

/-- The shape of a state says whether it accepts. -/
theorem stateShape_append_cons_inj {accepting accepting' : Bool} {x y : List Char}
    (h : stateShape accepting ++ ';' :: x = stateShape accepting' ++ ';' :: y) :
    accepting = accepting' ∧ x = y := by
  cases accepting with
  | false =>
      cases accepting' with
      | false => exact ⟨rfl, (List.cons.inj (List.append_cancel_left h)).2⟩
      | true => simp [stateShape] at h
  | true =>
      cases accepting' with
      | false => simp [stateShape] at h
      | true => exact ⟨rfl, (List.cons.inj (List.append_cancel_left h)).2⟩

namespace Statement

variable {x y : List Char}

/-- The statement of a state says where it ends. -/
theorem text_state_append_inj {accepting accepting' : Bool} {s t : Nat}
    (h : (state accepting s).text quote ++ ';' :: x =
      (state accepting' t).text quote ++ ';' :: y) :
    state accepting s = state accepting' t ∧ x = y := by
  simp only [text_state, Setting.text, List.append_assoc, List.cons_append] at h
  obtain ⟨rfl, -, hrest⟩ := stateName_append_cons_inj (by decide) (by decide) h
  obtain ⟨rfl, hxy⟩ :=
    stateShape_append_cons_inj (List.cons.inj (List.append_cancel_left hrest)).2
  exact ⟨rfl, (List.cons.inj (List.cons.inj hxy).2).2⟩

/-- The statement of an arrow says where it ends. -/
theorem text_arrow_append_inj (hquote : SelfDelimiting quote) {a b : Arrow}
    (h : (arrow a).text quote ++ ';' :: x = (arrow b).text quote ++ ';' :: y) :
    arrow a = arrow b ∧ x = y := by
  obtain ⟨source, target, label⟩ := a
  obtain ⟨source', target', label'⟩ := b
  simp only [text_arrow, Setting.text, List.append_assoc, List.cons_append] at h
  obtain ⟨rfl, -, hrest⟩ := stateName_append_cons_inj (by decide) (by decide) h
  obtain ⟨rfl, -, hrest⟩ :=
    stateName_append_cons_inj (by decide) (by decide) (List.cons.inj hrest).2
  obtain ⟨hlabel, hxy⟩ := hquote (List.cons.inj (List.append_cancel_left hrest)).2
  obtain rfl := flatMap_protect_injective hlabel
  exact ⟨rfl, (List.cons.inj (List.cons.inj (List.cons.inj hxy).2).2).2⟩

/-- The name of a state is followed by a bracket in the statement of a state, and by a hyphen in
that of an arrow. -/
theorem text_state_ne_text_arrow {accepting : Bool} {s : Nat} {a : Arrow} :
    (state accepting s).text quote ++ x ≠ (arrow a).text quote ++ y := by
  intro h
  simp only [text_state, text_arrow, Setting.text, List.append_assoc, List.cons_append] at h
  obtain ⟨-, hmark, -⟩ := stateName_append_cons_inj (by decide) (by decide) h
  exact absurd hmark (by decide)

/-- Every statement says where it ends. -/
theorem selfDelimiting_text (hquote : SelfDelimiting quote) :
    SelfDelimiting fun statement : Statement => statement.text quote ++ [';'] := by
  intro statement statement' x y h
  simp only [List.append_assoc, List.cons_append, List.nil_append] at h
  cases statement with
  | entry =>
      cases statement' with
      | entry => exact ⟨rfl, (List.cons.inj (List.append_cancel_left h)).2⟩
      | start => simp [text_entry, text_start, Setting.text] at h
      | state | arrow => simp [text_entry, text_state, text_arrow, Setting.text, stateName] at h
  | start s =>
      cases statement' with
      | entry => simp [text_entry, text_start, Setting.text] at h
      | start t =>
          simp only [text_start, List.append_assoc, List.cons_append, List.append_cancel_left_eq,
            List.cons.injEq, true_and] at h
          obtain ⟨rfl, -, hxy⟩ := stateName_append_cons_inj (by decide) (by decide) h
          exact ⟨rfl, hxy⟩
      | state | arrow => simp [text_start, text_state, text_arrow, stateName] at h
  | state accepting s =>
      cases statement' with
      | entry | start => simp [text_entry, text_start, text_state, stateName] at h
      | state accepting' t => exact text_state_append_inj h
      | arrow a => exact absurd h text_state_ne_text_arrow
  | arrow a =>
      cases statement' with
      | entry | start => simp [text_entry, text_start, text_arrow, stateName] at h
      | state accepting' t => exact absurd h.symm text_state_ne_text_arrow
      | arrow b => exact text_arrow_append_inj hquote h

/-- No statement begins with a closing brace. -/
theorem text_append_ne (statement : Statement) (x y : List Char) :
    statement.text quote ++ [';'] ++ x ≠ '}' :: y := by
  cases statement with
  | entry => simp [text_entry]
  | start => simp [text_start]
  | state => simp [text_state, stateName]
  | arrow => simp [text_arrow, stateName]

end Statement

/-! ## Drawings -/

/-- If all items but one of a range are left out, that one is left. -/
theorem flatMap_range_of_ne {α : Type} {f : Nat → List α} {s : Nat} (h : ∀ i, i ≠ s → f i = [])
    (n : Nat) : (List.range n).flatMap f = if s < n then f s else [] := by
  induction n with
  | zero => rfl
  | succ n ih =>
      rw [List.range_succ, List.flatMap_append, ih, List.flatMap_singleton]
      obtain hlt | rfl | hgt := Nat.lt_trichotomy s n
      · rw [if_pos hlt, if_pos (Nat.lt_succ_of_lt hlt), h n (Nat.ne_of_gt hlt), List.append_nil]
      · rw [if_neg (Nat.lt_irrefl s), if_pos (Nat.lt_succ_self s), List.nil_append]
      · rw [if_neg (Nat.not_lt_of_gt hgt), if_neg (Nat.not_lt_of_ge hgt), h n (Nat.ne_of_lt hgt)]
        rfl

/-- Statements can be read back from the text of a graph. -/
theorem digraph_text_injective (hquote : SelfDelimiting quote) {title : List Char}
    {statements statements' : List Statement}
    (h : digraph title (statements.map (·.text quote)) =
      digraph title (statements'.map (·.text quote))) : statements = statements' := by
  delta digraph at h
  simp only [List.flatMap_map, List.append_assoc, List.cons_append, List.append_cancel_left_eq,
    List.cons.injEq, true_and] at h
  exact ((Statement.selfDelimiting_text hquote).flatMap_append_cons_inj
    Statement.text_append_ne h).1

/-- Whether a state accepts, for the statement of a state. -/
def Statement.accepting? : Statement → Option Bool
  | state accepting _ => some accepting
  | _ => none

/-- The arrow of a statement, if it is that of an arrow. -/
def Statement.arrow? : Statement → Option Arrow
  | arrow a => some a
  | _ => none

theorem filterMap_accepting? (drawing : Drawing) :
    drawing.statements.filterMap Statement.accepting? = drawing.accepting := by
  rw [statements, List.mapIdx_eq_zipIdx_map]
  simp [List.filterMap_cons, List.filterMap_map, Function.comp_def, Statement.accepting?]

theorem filterMap_arrow? (drawing : Drawing) :
    drawing.statements.filterMap Statement.arrow? = drawing.arrows := by
  rw [statements, List.mapIdx_eq_zipIdx_map]
  simp [List.filterMap_cons, List.filterMap_map, Function.comp_def, Statement.arrow?]

/-- A drawing can be read back from its title and its statements. -/
theorem statements_injective (htitle : drawing.title = drawing'.title)
    (h : drawing.statements = drawing'.statements) : drawing = drawing' := by
  have hstart : drawing.start = drawing'.start := by
    have hsecond := (List.cons.inj (List.cons.inj h).2).1
    exact Statement.start.inj hsecond
  have haccepting := congrArg (List.filterMap Statement.accepting?) h
  have harrows := congrArg (List.filterMap Statement.arrow?) h
  rw [filterMap_accepting?, filterMap_accepting?] at haccepting
  rw [filterMap_arrow?, filterMap_arrow?] at harrows
  cases drawing
  cases drawing'
  rw [Drawing.mk.injEq]
  exact ⟨htitle, hstart, haccepting, harrows⟩

/-- If two drawings with one title are written as one text, they are one drawing. -/
theorem render_injective (h : library.Conforms) (hidentifier : isIdentifier drawing.title = true)
    (htitle : drawing.title = drawing'.title)
    (hrender : drawing.render library = drawing'.render library) : drawing = drawing' := by
  rw [render_eq h hidentifier, render_eq h (htitle ▸ hidentifier), ← htitle] at hrender
  exact statements_injective htitle (digraph_text_injective h.quote (Except.ok.inj hrender))

end Drawing

end RegexEquiv
