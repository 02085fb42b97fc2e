import RegexEquiv.Proofs.Dfa.Numbering
import RegexEquiv.Proofs.Dfa.Session
import RegexEquiv.Proofs.Drawing.Dot

/-!
# Drawings of deterministic automata

The symbols of a state are gathered target by target: adding a symbol changes the label of its own
target and no other (`Dfa.filter_addToLabel`). So each target that some symbol leads to gets one
label, which lists those symbols in the order of the alphabet (`Dfa.filter_labels`), and there is
one arrow for every two states that some symbol joins, `Dfa.filter_arrows_drawing`.

The symbols can be read back from a label, whatever they are, hence the table from the drawing
(`Dfa.eq_of_drawing_eq`). With a library that conforms to the format, the text of a drawing shows
the automaton as it is, and no other automaton is drawn with the same text: `Dfa.session_drawing`.
-/

namespace RegexEquiv.Dfa

variable {d d' : Dfa} {library : DotLibrary}

/-- The symbols that lead from a state to another, in the order of the alphabet. -/
def symbolsTo (d : Dfa) (s t : Nat) : List Char :=
  d.alphabet.toList.filter fun c => d.next? s c = some t

theorem mem_symbolsTo {s t : Nat} {c : Char} : c ∈ d.symbolsTo s t ↔ d.next? s c = some t := by
  rw [symbolsTo, List.mem_filter, decide_eq_true_iff, and_iff_right_iff_imp]
  intro h
  obtain ⟨column, hc, -⟩ := next?_eq_some_iff.1 h
  exact List.mem_of_getElem? hc

/-! ## Labels -/

/-- Adding a symbol to the label of its target is adding it to the labels of this target. -/
theorem filter_addToLabel (labels : List (Nat × List Char)) (c : Char) (t : Nat) :
    (addToLabel labels (c, t)).filter (·.1 = t) =
      addToLabel (labels.filter (·.1 = t)) (c, t) := by
  induction labels with
  | nil => simp [addToLabel]
  | cons entry labels ih =>
      obtain ⟨other, label⟩ := entry
      by_cases hother : other = t
      · simp [addToLabel, hother]
      · simp [addToLabel, hother, ih]

/-- Adding a symbol to the label of its target changes nothing for other targets. -/
theorem filter_addToLabel_of_ne {t u : Nat} (h : t ≠ u) (labels : List (Nat × List Char))
    (c : Char) : (addToLabel labels (c, t)).filter (·.1 = u) = labels.filter (·.1 = u) := by
  induction labels with
  | nil => simp [addToLabel, h]
  | cons entry labels ih =>
      obtain ⟨other, label⟩ := entry
      by_cases hother : other = t
      · simp [addToLabel, hother, h]
      · simp [addToLabel, hother, List.filter_cons, ih]

/-- Of all moves, those to a target make its label. -/
theorem filter_foldl_addToLabel (moves : List (Char × Nat)) (labels : List (Nat × List Char))
    (t : Nat) : (moves.foldl addToLabel labels).filter (·.1 = t) =
      (moves.filter (·.2 = t)).foldl addToLabel (labels.filter (·.1 = t)) := by
  induction moves generalizing labels with
  | nil => rfl
  | cons move moves ih =>
      obtain ⟨c, u⟩ := move
      rw [List.foldl_cons, ih]
      by_cases hu : u = t
      · subst hu
        simp [filter_addToLabel]
      · simp [hu, filter_addToLabel_of_ne hu]

/-- Symbols that lead to one target are listed behind each other. -/
theorem foldl_addToLabel_singleton (cs : List Char) (t : Nat) (label : List Char) :
    (cs.map (·, t)).foldl addToLabel [(t, label)] = [(t, label ++ cs.flatMap ([',', ·]))] := by
  induction cs generalizing label with
  | nil => simp
  | cons c cs ih =>
      have hadd : addToLabel [(t, label)] (c, t) = [(t, label ++ [',', c])] := by simp [addToLabel]
      rw [List.map_cons, List.foldl_cons, hadd, ih]
      simp

/-- A list with commas in between begins with its first member. -/
theorem intersperse_cons (c : Char) (cs : List Char) :
    (c :: cs).intersperse ',' = c :: cs.flatMap ([',', ·]) := by
  induction cs generalizing c with
  | nil => rfl
  | cons d cs ih =>
      rw [List.intersperse_cons_cons, ih]
      rfl

/-- Moves to one target make one label, and no moves make none. -/
theorem foldl_addToLabel_nil (cs : List Char) (t : Nat) :
    (cs.map (·, t)).foldl addToLabel [] = if cs = [] then [] else [(t, cs.intersperse ',')] := by
  cases cs with
  | nil => rfl
  | cons c cs =>
      rw [if_neg (List.cons_ne_nil c cs), intersperse_cons]
      exact foldl_addToLabel_singleton cs t [c]

/-- If symbols lead where their columns in a row say, the moves to a target are those with the
symbols that lead there. -/
theorem filter_zip {cs : List Char} {row : List Nat} {next : Char → Option Nat}
    (hnext : ∀ (column : Nat) c, cs[column]? = some c → next c = row[column]?) (t : Nat) :
    (cs.zip row).filter (·.2 = t) = (cs.filter (next · = some t)).map (·, t) := by
  induction cs generalizing row with
  | nil => rfl
  | cons c cs ih =>
      cases row with
      | nil =>
          have hnone : (c :: cs).filter (next · = some t) = [] := by
            refine List.filter_eq_nil_iff.2 fun a ha => ?_
            obtain ⟨column, hcolumn⟩ := List.mem_iff_getElem?.1 ha
            simp [hnext column a hcolumn]
          rw [hnone]
          rfl
      | cons u row =>
          have hc : next c = some u := hnext 0 c rfl
          have hrest := @ih row fun column a ha => hnext (column + 1) a ha
          by_cases hu : u = t
          · simp [hc, hu, hrest]
          · simp [hc, hu, hrest]

/-- The label of a target lists the symbols that lead there. -/
theorem filter_labels (d : Dfa) (s t : Nat) : (d.labels s).filter (·.1 = t) =
    if d.symbolsTo s t = [] then [] else [(t, (d.symbolsTo s t).intersperse ',')] := by
  rw [labels, filter_foldl_addToLabel, filter_zip fun _ _ => next?_of_getElem?, List.filter_nil]
  exact foldl_addToLabel_nil _ t

/-! ## Arrows -/

/-- Outside the table no symbol leads anywhere. -/
theorem symbolsTo_of_size_le {s : Nat} (hs : d.size ≤ s) (t : Nat) : d.symbolsTo s t = [] := by
  refine List.eq_nil_iff_forall_not_mem.2 fun c hc => ?_
  obtain ⟨column, -, ht⟩ := next?_eq_some_iff.1 (mem_symbolsTo.1 hc)
  have hrow : d.row s = [] := by
    rw [row, Array.getElem?_eq_none hs]
    rfl
  rw [hrow] at ht
  cases ht

/-- From a state to another there is one arrow, labelled with the symbols that lead there, or none
if no symbol does. -/
theorem filter_arrows_drawing (d : Dfa) (s t : Nat) :
    d.drawing.arrows.filter (fun a => a.source = s ∧ a.target = t) =
      if d.symbolsTo s t = [] then [] else [⟨s, t, (d.symbolsTo s t).intersperse ','⟩] := by
  have hother : ∀ source, source ≠ s →
      ((d.labels source).map fun entry => (⟨source, entry.1, entry.2⟩ : Arrow)).filter
        (fun a => a.source = s ∧ a.target = t) = [] := by
    intro source hsource
    simp [List.filter_map, Function.comp_def, hsource]
  have hself :
      ((d.labels s).map fun entry => (⟨s, entry.1, entry.2⟩ : Arrow)).filter
        (fun a => a.source = s ∧ a.target = t) =
        if d.symbolsTo s t = [] then [] else [⟨s, t, (d.symbolsTo s t).intersperse ','⟩] := by
    have hfilter := filter_labels d s t
    simp only [List.filter_map, Function.comp_def, true_and, hfilter]
    split
    · rfl
    · rfl
  rw [drawing, List.filter_flatMap, Drawing.flatMap_range_of_ne hother, hself]
  split
  · rfl
  · rename_i hs
    rw [symbolsTo_of_size_le (Nat.not_lt.1 hs), if_pos rfl]

/-- A drawing says of every state whether it accepts. -/
theorem accepting_drawing (d : Dfa) :
    d.drawing.accepting = (List.range d.size).map d.isAccepting := by
  show d.states.toList.map DfaState.accepting = _
  refine List.ext_getElem (by simp [size]) fun s hs hs' => ?_
  have hlt : s < d.states.size := by simpa using hs
  simp [isAccepting_of_getElem? (Array.getElem?_eq_getElem hlt)]

/-- The statements of a drawing list every state once, in order, with what it answers. -/
theorem statements_drawing (d : Dfa) : d.drawing.statements =
    .entry :: .start d.start :: ((List.range d.size).map (fun s => .state (d.isAccepting s) s) ++
      d.drawing.arrows.map .arrow) := by
  have hstates : ((List.range d.size).map d.isAccepting).mapIdx
      (fun s accepting => Drawing.Statement.state accepting s) =
      (List.range d.size).map fun s => .state (d.isAccepting s) s := by
    refine List.ext_getElem (by simp) fun s _ _ => ?_
    simp
  rw [Drawing.statements, accepting_drawing, hstates]
  rfl

/-! ## Reading back -/

/-- Symbols can be read back from their label, commas among them included. -/
theorem intersperse_injective {cs cs' : List Char}
    (h : cs.intersperse ',' = cs'.intersperse ',') : cs = cs' := by
  have hcomma : Text.SelfDelimiting fun c : Char => [',', c] := fun c d x y heq => by
    simpa using heq
  cases cs with
  | nil =>
      cases cs' with
      | nil => rfl
      | cons c' cs' =>
          rw [intersperse_cons] at h
          cases h
  | cons c cs =>
      cases cs' with
      | nil =>
          rw [intersperse_cons] at h
          cases h
      | cons c' cs' =>
          rw [intersperse_cons, intersperse_cons] at h
          obtain ⟨rfl, hrest⟩ := List.cons.inj h
          obtain ⟨rfl, -⟩ := hcomma.flatMap_append_cons_inj (c := '.') (x := []) (y := [])
            (fun _ _ _ h => by simp at h) (congrArg (· ++ ['.']) hrest)
          rfl

/-- Automata with the same arrows make the same moves. -/
theorem next?_eq_of_arrows_eq (h : d.drawing.arrows = d'.drawing.arrows) : d.next? = d'.next? := by
  have hsymbols : ∀ s t, d.symbolsTo s t = d'.symbolsTo s t := by
    intro s t
    have hfilter := filter_arrows_drawing d s t
    rw [h, filter_arrows_drawing] at hfilter
    by_cases hnil : d.symbolsTo s t = []
    · by_cases hnil' : d'.symbolsTo s t = []
      · rw [hnil, hnil']
      · rw [if_pos hnil, if_neg hnil'] at hfilter
        cases hfilter
    · by_cases hnil' : d'.symbolsTo s t = []
      · rw [if_neg hnil, if_pos hnil'] at hfilter
        cases hfilter
      · rw [if_neg hnil, if_neg hnil'] at hfilter
        exact (intersperse_injective (Arrow.mk.inj (List.cons.inj hfilter).1).2.2).symm
  funext s c
  refine Option.ext fun t => ?_
  rw [← mem_symbolsTo, ← mem_symbolsTo, hsymbols]

/-- Well-formed automata with the same drawing are equal, whatever their alphabets are. -/
theorem WellFormed.eq_of_drawing_eq {alphabet alphabet' : Alphabet} (hd : d.WellFormed alphabet)
    (hd' : d'.WellFormed alphabet') (h : d.drawing = d'.drawing) : d = d' := by
  have hstart : d.start = d'.start := congrArg Drawing.start h
  have hnext : d.next? = d'.next? := next?_eq_of_arrows_eq (congrArg Drawing.arrows h)
  have hmem : ∀ {e : Dfa}, e.isTotal = true → ∀ c,
      c ∈ e.alphabet ↔ ∃ t, e.next? e.start c = some t := by
    intro e he c
    constructor
    · exact exists_next? he (isTotal_iff.1 he).1
    · rintro ⟨t, ht⟩
      obtain ⟨column, hc, -⟩ := next?_eq_some_iff.1 ht
      exact List.mem_of_getElem? hc
  have halphabet : d.alphabet = d'.alphabet :=
    SortedSet.ext_mem fun c => by rw [hmem hd.total, hmem hd'.total, hstart, hnext]
  have hrun : ∀ w, d.run? w = d'.run? w := fun w => by rw [run?, run?, hstart, hnext]
  have haccepting : d.isAccepting = d'.isAccepting := by
    have hlist := congrArg Drawing.accepting h
    rw [accepting_drawing, accepting_drawing] at hlist
    have hsize : d.size = d'.size := by simpa using congrArg List.length hlist
    funext s
    by_cases hs : s < d.size
    · exact List.map_inj_left.1 (hsize ▸ hlist) s (List.mem_range.2 (hsize ▸ hs))
    · have houtside : ∀ {e : Dfa}, ¬ s < e.size → e.isAccepting s = false := fun hs =>
        Bool.eq_false_iff.2 (mt lt_size_of_isAccepting hs)
      rw [houtside hs, houtside (hsize ▸ hs)]
  refine eq_of_run?_eq hd.total hd'.total halphabet (fun s hs => ?_) (fun s hs => ?_) hrun
    fun w => by rw [accepts, accepts, hrun, haccepting]
  · obtain ⟨w, -, hw⟩ := hd.reachable s hs
    exact ⟨w, hw⟩
  · obtain ⟨w, -, hw⟩ := hd'.reachable s hs
    exact ⟨w, hw⟩

/-! ## Texts -/

/-- Every automaton built by a sequence of operations can be drawn, with any library that conforms
to the format. The text lists every state once, in order and circled twice if it accepts, and has
one arrow from a state to another if some symbol leads there, labelled with all such symbols in the
order of the alphabet, and none otherwise. No other automaton built in such a way, over whatever
alphabet, is drawn with the same text. -/
theorem session_drawing (hlibrary : library.Conforms) (alphabet : Alphabet)
    (operations : List Operation) :
    ∀ x ∈ session alphabet operations,
      (∃ arrows : List Arrow,
        x.dfa.drawing.render library = .ok (Drawing.digraph "dfa".toList
          ((.entry :: .start x.dfa.start ::
            ((List.range x.dfa.size).map (fun s => .state (x.dfa.isAccepting s) s) ++
              arrows.map .arrow)).map (Drawing.Statement.text library.quote))) ∧
        ∀ s t, arrows.filter (fun a => a.source = s ∧ a.target = t) =
          if x.dfa.symbolsTo s t = [] then []
          else [⟨s, t, (x.dfa.symbolsTo s t).intersperse ','⟩]) ∧
      ∀ alphabet' operations', ∀ y ∈ session alphabet' operations',
        x.dfa.drawing.render library = y.dfa.drawing.render library → x.dfa = y.dfa := by
  have htitle : isIdentifier "dfa".toList = true := by decide
  intro x hx
  have hwellFormed := (sound_session alphabet operations x hx).wellFormed
  refine ⟨⟨x.dfa.drawing.arrows, ?_, filter_arrows_drawing x.dfa⟩, ?_⟩
  · rw [← statements_drawing]
    exact Drawing.render_eq hlibrary htitle
  · intro alphabet' operations' y hy hrender
    have hwellFormed' := (sound_session alphabet' operations' y hy).wellFormed
    exact hwellFormed.eq_of_drawing_eq hwellFormed'
      (Drawing.render_injective hlibrary htitle rfl hrender)

open Regex in
/-- A label with a quote, commas and a backslash, each of which was protected twice. -/
theorem session_drawing_punctuation :
    DotLibrary.strict.Conforms ∧
      ∃ x ∈ session (.ofList [',', '"', '\\'])
          [.determinize (alt (symbol ',') (symbol '"')) {}, .complement 0],
        x.dfa.drawing.render .strict = .ok ("digraph dfa\x7bentry[shape=point;];entry->q0;".toList ++
          "q0[shape=doublecircle;];q1[shape=circle;];q2[shape=circle;];".toList ++
          "q3[shape=doublecircle;];q0->q1[label=\"\\\\\\\"\";];q0->q2[label=\",\";];".toList ++
          "q0->q3[label=\"\\\\\\\\\";];q1->q3[label=\"\\\\\\\",,,\\\\\\\\\";];".toList ++
          "q2->q3[label=\"\\\\\\\",,,\\\\\\\\\";];q3->q3[label=\"\\\\\\\",,,\\\\\\\\\";];\x7d".toList) ∧
        ∀ alphabet' operations', ∀ y ∈ session alphabet' operations',
          x.dfa.drawing.render .strict = y.dfa.drawing.render .strict → x.dfa = y.dfa := by
  let x : Built :=
    { formula := .negated (.words (alt (symbol ',') (symbol '"')))
      dfa := ⟨.ofList [',', '"', '\\'], 0, #[⟨true, [1, 2, 3]⟩, ⟨false, [3, 3, 3]⟩,
        ⟨false, [3, 3, 3]⟩, ⟨true, [3, 3, 3]⟩]⟩ }
  have hx : x ∈ session (.ofList [',', '"', '\\'])
      [.determinize (alt (symbol ',') (symbol '"')) {}, .complement 0] := by decide +kernel
  exact ⟨DotLibrary.conforms_strict, x, hx, by decide +kernel,
    (session_drawing DotLibrary.conforms_strict _ _ x hx).2⟩

end RegexEquiv.Dfa
