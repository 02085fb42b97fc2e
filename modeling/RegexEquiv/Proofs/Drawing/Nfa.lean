import RegexEquiv.Proofs.Drawing.Dot
import RegexEquiv.Proofs.Nfa.Shape

/-!
# Drawings of nondeterministic automata

Every move has an arrow of its own, which is labelled with the symbol that the move reads, or with
an epsilon if it is silent (`Nfa.mem_arrows_drawing`). So a drawing says which moves there are, but
for one thing: a move that reads the symbol `ε` looks like a silent one. `Nfa.silenced` takes the
moves that read a symbol for silent ones, and `Nfa.ofDrawing_drawing` says that an automaton is read
back from its drawing with the moves that read `ε` silenced.

The automata of two expressions are drawn as one text exactly when they agree once these moves are
silenced, and an automaton without such moves is read back as it is: `Nfa.drawing_ofRegex`. Without
this exception drawings would not tell automata apart (`Nfa.not_render_injective_epsilon`).
-/

namespace RegexEquiv

namespace Moves

/-- The arrows of the moves out of a state. -/
def arrows (moves : Moves) (source : Nat) : List Arrow :=
  moves.silent.map (⟨source, ·, ['ε']⟩) ++
    moves.reading.map fun (c, target) => ⟨source, target, [c]⟩

/-- The moves of a state, those that read a symbol taken for silent ones. -/
def silenced (c : Char) (moves : Moves) : Moves where
  silent := moves.silent ++ (moves.reading.filter (·.1 = c)).map (·.2)
  reading := moves.reading.filter (·.1 ≠ c)

end Moves

/-- The target of an arrow that is labelled with an epsilon. -/
def Arrow.silent? (a : Arrow) : Option Nat := if a.label = ['ε'] then some a.target else none

/-- The symbol and the target of an arrow that is labelled with another symbol. -/
def Arrow.reading? (a : Arrow) : Option (Char × Nat) :=
  match a.label with
  | [c] => if c = 'ε' then none else some (c, a.target)
  | _ => none

namespace Moves

/-- The moves that the arrows out of a state stand for. -/
def ofArrows (arrows : List Arrow) : Moves where
  silent := arrows.filterMap Arrow.silent?
  reading := arrows.filterMap Arrow.reading?

variable {moves : Moves} {source : Nat}

/-- Of the arrows of moves that read, those of `ε` are taken for silent ones. -/
theorem filterMap_silent? (reading : List (Char × Nat)) :
    (reading.map fun (c, target) => (⟨source, target, [c]⟩ : Arrow)).filterMap Arrow.silent? =
      (reading.filter (·.1 = 'ε')).map (·.2) := by
  induction reading with
  | nil => rfl
  | cons move reading ih =>
      obtain ⟨c, target⟩ := move
      rw [List.map_cons, List.filterMap_cons, ih]
      by_cases hc : c = 'ε'
      · simp [Arrow.silent?, hc]
      · simp [Arrow.silent?, hc]

/-- Of the arrows of moves that read, all but those of `ε` are read back. -/
theorem filterMap_reading? (reading : List (Char × Nat)) :
    (reading.map fun (c, target) => (⟨source, target, [c]⟩ : Arrow)).filterMap Arrow.reading? =
      reading.filter (·.1 ≠ 'ε') := by
  induction reading with
  | nil => rfl
  | cons move reading ih =>
      obtain ⟨c, target⟩ := move
      rw [List.map_cons, List.filterMap_cons, ih]
      by_cases hc : c = 'ε'
      · simp [Arrow.reading?, hc]
      · simp [Arrow.reading?, hc]

/-- Moves are read back from their arrows, those that read `ε` as silent ones. -/
theorem ofArrows_arrows (moves : Moves) (source : Nat) :
    ofArrows (moves.arrows source) = moves.silenced 'ε' := by
  have hsilent : (moves.silent.map (⟨source, ·, ['ε']⟩)).filterMap Arrow.silent? =
      moves.silent := by simp [List.filterMap_map, Function.comp_def, Arrow.silent?]
  have hreading : (moves.silent.map (⟨source, ·, ['ε']⟩)).filterMap Arrow.reading? = [] := by
    simp [List.filterMap_map, Function.comp_def, Arrow.reading?]
  rw [ofArrows, arrows, List.filterMap_append, List.filterMap_append, hsilent, hreading,
    filterMap_silent?, filterMap_reading?]
  rfl

/-- Elementary moves keep their arrows when those that read `ε` are silenced. -/
theorem Elementary.arrows_silenced (h : moves.Elementary) (source : Nat) :
    (moves.silenced 'ε').arrows source = moves.arrows source := by
  cases h with
  | none | step | branch => rfl
  | read c t =>
      by_cases hc : c = 'ε'
      · simp [silenced, arrows, hc]
      · simp [silenced, arrows, hc]

/-- If no move reads a symbol, none is silenced. -/
theorem silenced_eq_self {c : Char} (h : ∀ move ∈ moves.reading, move.1 ≠ c) :
    moves.silenced c = moves := by
  have hnone : moves.reading.filter (·.1 = c) = [] :=
    List.filter_eq_nil_iff.2 fun move hmove => by simpa using h move hmove
  have hall : moves.reading.filter (·.1 ≠ c) = moves.reading :=
    List.filter_eq_self.2 fun move hmove => by simpa using h move hmove
  simp only [silenced, hnone, hall, List.map_nil, List.append_nil]

end Moves

/-- The moves of a fragment read symbols that the expression mentions. -/
theorem Regex.fragment_reading (r : Regex) {first : Nat} {exits : List Nat} {moves : Moves}
    (h : moves ∈ r.fragment first exits) {move : Char × Nat} (hmove : move ∈ moves.reading) :
    move.1 ∈ r.leaves := by
  induction r generalizing first exits with
  | empty | epsilon =>
      simp only [fragment, List.mem_cons, List.not_mem_nil, or_false] at h
      obtain rfl | rfl := h
      · cases hmove
      · cases hmove
  | symbol c =>
      simp only [fragment, List.mem_cons, List.not_mem_nil, or_false] at h
      obtain rfl | rfl := h
      · obtain rfl := List.mem_singleton.1 hmove
        exact List.mem_singleton.2 rfl
      · cases hmove
  | cat left right ihl ihr =>
      obtain h | h := List.mem_append.1 h
      · exact List.mem_append_left _ (ihl h)
      · exact List.mem_append_right _ (ihr h)
  | alt left right ihl ihr =>
      simp only [fragment, List.mem_cons, List.mem_append, List.not_mem_nil, or_false] at h
      obtain rfl | (h | h) | rfl := h
      · cases hmove
      · exact List.mem_append_left _ (ihl h)
      · exact List.mem_append_right _ (ihr h)
      · cases hmove
  | star inner ih | plus inner ih =>
      simp only [fragment, List.mem_cons, List.mem_append, List.not_mem_nil, or_false] at h
      obtain rfl | h | rfl := h
      · cases hmove
      · exact ih h
      · cases hmove

namespace Nfa

variable {n : Nfa} {library : DotLibrary}

/-- An automaton, the moves that read a symbol taken for silent ones. -/
def silenced (n : Nfa) (c : Char) : Nfa := { n with moves := n.moves.map (Moves.silenced c) }

@[simp]
theorem size_silenced (n : Nfa) (c : Char) : (n.silenced c).size = n.size := by
  simp [size, silenced]

theorem movesFrom_silenced (n : Nfa) (c : Char) (s : Nat) :
    (n.silenced c).movesFrom s = (n.movesFrom s).silenced c := by
  rw [movesFrom, silenced, Array.getElem?_map, movesFrom]
  cases n.moves[s]? with
  | none => rfl
  | some moves => rfl

/-! ## Arrows -/

theorem arrows_drawing (n : Nfa) :
    n.drawing.arrows = (List.range n.size).flatMap fun s => (n.movesFrom s).arrows s := rfl

/-- An arrow stands for a silent move if it is labelled with an epsilon, or for a move that reads
the symbol of its label, and every move has its arrow. -/
theorem mem_arrows_drawing {a : Arrow} : a ∈ n.drawing.arrows ↔
    (a.label = ['ε'] ∧ a.target ∈ (n.movesFrom a.source).silent) ∨
      ∃ c, a.label = [c] ∧ (c, a.target) ∈ (n.movesFrom a.source).reading := by
  obtain ⟨source, target, label⟩ := a
  rw [arrows_drawing, List.mem_flatMap]
  simp only [Moves.arrows, List.mem_append, List.mem_map, Prod.exists, Arrow.mk.injEq]
  constructor
  · rintro ⟨s, -, ⟨t, ht, rfl, rfl, rfl⟩ | ⟨c, t, ht, rfl, rfl, rfl⟩⟩
    · exact .inl ⟨rfl, ht⟩
    · exact .inr ⟨c, rfl, ht⟩
  · intro h
    have hsource : source < n.size := by
      refine Nat.lt_of_not_le fun hle => ?_
      rw [movesFrom_of_size_le hle] at h
      obtain ⟨-, h⟩ | ⟨c, -, h⟩ := h
      · cases h
      · cases h
    obtain ⟨rfl, ht⟩ | ⟨c, rfl, ht⟩ := h
    · exact ⟨source, List.mem_range.2 hsource, .inl ⟨target, ht, rfl, rfl, rfl⟩⟩
    · exact ⟨source, List.mem_range.2 hsource, .inr ⟨c, target, ht, rfl, rfl, rfl⟩⟩

/-- The arrows out of a state are those of its moves. -/
theorem filter_arrows_drawing_source (n : Nfa) {s : Nat} (hs : s < n.size) :
    n.drawing.arrows.filter (·.source = s) = (n.movesFrom s).arrows s := by
  have hsource : ∀ source, ∀ a ∈ (n.movesFrom source).arrows source, a.source = source := by
    intro source a ha
    simp only [Moves.arrows, List.mem_append, List.mem_map, Prod.exists] at ha
    obtain ⟨t, -, rfl⟩ | ⟨c, t, -, rfl⟩ := ha
    · rfl
    · rfl
  have hother : ∀ source, source ≠ s →
      ((n.movesFrom source).arrows source).filter (·.source = s) = [] := by
    intro source hne
    refine List.filter_eq_nil_iff.2 fun a ha => ?_
    simpa [hsource source a ha] using hne
  rw [arrows_drawing, List.filter_flatMap, Drawing.flatMap_range_of_ne hother, if_pos hs]
  exact List.filter_eq_self.2 fun a ha => by simpa using hsource s a ha

/-! ## Reading back -/

/-- The automaton that a drawing shows, if every arrow labelled with an epsilon is a silent move. -/
def ofDrawing (drawing : Drawing) : Nfa where
  start := drawing.start
  accept := drawing.accepting.findIdx id
  moves := ((List.range drawing.accepting.length).map fun s =>
    Moves.ofArrows (drawing.arrows.filter (·.source = s))).toArray

/-- An automaton is read back from its drawing, the moves that read `ε` as silent ones. -/
theorem ofDrawing_drawing (n : Nfa) (haccept : n.accept < n.size) :
    ofDrawing n.drawing = n.silenced 'ε' := by
  have hsize : n.drawing.accepting.length = n.size := by simp [drawing]
  have hfind : n.drawing.accepting.findIdx id = n.accept := by
    refine (List.findIdx_eq (hsize ▸ haccept)).2 ⟨by simp [drawing], fun s hs => ?_⟩
    simpa [drawing] using Nat.ne_of_lt hs
  have hmoves : (List.range n.size).map (fun s =>
      Moves.ofArrows (n.drawing.arrows.filter (·.source = s))) =
      n.moves.toList.map (Moves.silenced 'ε') := by
    refine List.ext_getElem (by simp [size]) fun s hs hs' => ?_
    have hlt : s < n.size := by simpa using hs
    have hget : n.movesFrom s = n.moves[s] := by
      rw [movesFrom, Array.getElem?_eq_getElem hlt]
      rfl
    rw [List.getElem_map, List.getElem_map, List.getElem_range, filter_arrows_drawing_source n hlt,
      Moves.ofArrows_arrows, hget, Array.getElem_toList]
    rfl
  rw [ofDrawing, hfind, hsize, hmoves, ← Array.toList_map, Array.toArray_toList]
  rfl

/-- Automata with elementary moves are drawn in the same way with the moves that read `ε`
silenced. -/
theorem drawing_silenced (h : ∀ s, (n.movesFrom s).Elementary) :
    (n.silenced 'ε').drawing = n.drawing := by
  have harrows : (n.silenced 'ε').drawing.arrows = n.drawing.arrows := by
    simp only [arrows_drawing, size_silenced, movesFrom_silenced, (h _).arrows_silenced]
  have haccepting : (n.silenced 'ε').drawing.accepting = n.drawing.accepting := by
    simp only [drawing, size_silenced]
    rfl
  rw [Drawing.mk.injEq]
  exact ⟨rfl, rfl, haccepting, harrows⟩

/-- If an expression does not mention a symbol, no move of its automaton reads it. -/
theorem silenced_ofRegex {r : Regex} {c : Char} (hc : c ∉ r.symbols) :
    (ofRegex r).silenced c = ofRegex r := by
  have hmoves : (r.fragment 0 []).map (Moves.silenced c) = r.fragment 0 [] := by
    refine (List.map_congr_left fun moves hmem => ?_).trans (List.map_id _)
    refine Moves.silenced_eq_self fun move hmove heq => ?_
    exact hc (SortedSet.mem_ofList.2 (heq ▸ r.fragment_reading hmem hmove))
  simp only [silenced, ofRegex, List.map_toArray, hmoves]

/-- The automata of two expressions are drawn in the same way exactly when they agree once the moves
that read `ε` are silenced. -/
theorem drawing_ofRegex_eq_iff {r r' : Regex} : (ofRegex r).drawing = (ofRegex r').drawing ↔
    (ofRegex r).silenced 'ε' = (ofRegex r').silenced 'ε' := by
  constructor
  · intro h
    rw [← ofDrawing_drawing _ (accept_lt_size_ofRegex r), h,
      ofDrawing_drawing _ (accept_lt_size_ofRegex r')]
  · intro h
    rw [← drawing_silenced (elementary_ofRegex r), h, drawing_silenced (elementary_ofRegex r')]

/-- The automaton of an expression can be drawn, with any library that conforms to the format: the
text has the statements of the drawing in order. There is an arrow for every move, labelled with an
epsilon if the move is silent and with the symbol that it reads if it reads one, and no other arrow;
so the automaton is read back with the moves that read the symbol `ε` as silent ones. Two automata
are drawn with the same text exactly when they agree once these moves are taken for silent ones. If
an expression does not mention that symbol, nothing is taken for something else, and no two automata
of such expressions are drawn with the same text. -/
theorem drawing_ofRegex (hlibrary : library.Conforms) (r : Regex) :
    (ofRegex r).drawing.render library = .ok (Drawing.digraph "nfa".toList
      ((ofRegex r).drawing.statements.map (Drawing.Statement.text library.quote))) ∧
    (∀ a : Arrow, a ∈ (ofRegex r).drawing.arrows ↔
      (a.label = ['ε'] ∧ a.target ∈ ((ofRegex r).movesFrom a.source).silent) ∨
        ∃ c, a.label = [c] ∧ (c, a.target) ∈ ((ofRegex r).movesFrom a.source).reading) ∧
    ofDrawing (ofRegex r).drawing = (ofRegex r).silenced 'ε' ∧
    (∀ r', (ofRegex r).drawing.render library = (ofRegex r').drawing.render library ↔
      (ofRegex r).silenced 'ε' = (ofRegex r').silenced 'ε') ∧
    ('ε' ∉ r.symbols → ofDrawing (ofRegex r).drawing = ofRegex r ∧
      ∀ r', 'ε' ∉ r'.symbols →
        (ofRegex r).drawing.render library = (ofRegex r').drawing.render library →
        ofRegex r = ofRegex r') := by
  have htitle : isIdentifier "nfa".toList = true := by decide
  have hread := ofDrawing_drawing _ (accept_lt_size_ofRegex r)
  have hiff : ∀ r', (ofRegex r).drawing.render library = (ofRegex r').drawing.render library ↔
      (ofRegex r).silenced 'ε' = (ofRegex r').silenced 'ε' := by
    intro r'
    rw [← drawing_ofRegex_eq_iff]
    constructor
    · exact Drawing.render_injective hlibrary htitle rfl
    · exact congrArg (Drawing.render library)
  refine ⟨Drawing.render_eq hlibrary htitle, fun a => mem_arrows_drawing, hread, hiff,
    fun hr => ⟨by rw [hread, silenced_ofRegex hr], fun r' hr' hrender => ?_⟩⟩
  rw [← silenced_ofRegex hr, (hiff r').1 hrender, silenced_ofRegex hr']

open Regex in
/-- Three factors of which one is a quote make one automaton, however they are grouped. Where the
symbol `ε` and the empty word stand does not show in a drawing. -/
theorem drawing_ofRegex_grouped :
    DotLibrary.strict.Conforms ∧
      (ofRegex (cat (cat (symbol '"') epsilon) (symbol 'ε'))).drawing.render .strict =
        .ok ("digraph nfa\x7bentry[shape=point;];entry->q0;q0[shape=circle;];".toList ++
          "q1[shape=circle;];q2[shape=circle;];q3[shape=circle;];q4[shape=circle;];".toList ++
          "q5[shape=doublecircle;];q0->q1[label=\"\\\\\\\"\";];q1->q2[label=\"ε\";];".toList ++
          "q2->q3[label=\"ε\";];q3->q4[label=\"ε\";];q4->q5[label=\"ε\";];\x7d".toList) ∧
      (ofRegex (cat (cat (symbol '"') epsilon) (symbol 'ε'))).silenced 'ε' =
        (ofRegex (cat (symbol '"') (cat (symbol 'ε') epsilon))).silenced 'ε' ∧
      'ε' ∉ (cat (cat (symbol '"') epsilon) (symbol 'a')).symbols ∧
      'ε' ∉ (cat (symbol '"') (cat epsilon (symbol 'a'))).symbols ∧
      ofRegex (cat (cat (symbol '"') epsilon) (symbol 'a')) =
        ofRegex (cat (symbol '"') (cat epsilon (symbol 'a'))) := by
  have hlibrary := DotLibrary.conforms_strict
  have hleft : 'ε' ∉ (cat (cat (symbol '"') epsilon) (symbol 'a')).symbols := by decide
  have hright : 'ε' ∉ (cat (symbol '"') (cat epsilon (symbol 'a'))).symbols := by decide
  obtain ⟨-, -, -, hsame, -⟩ :=
    drawing_ofRegex hlibrary (cat (cat (symbol '"') epsilon) (symbol 'ε'))
  obtain ⟨-, -, -, -, hplain⟩ :=
    drawing_ofRegex hlibrary (cat (cat (symbol '"') epsilon) (symbol 'a'))
  refine ⟨hlibrary, (Drawing.render_strict (by decide)).trans (congrArg Except.ok ?_),
    (hsame _).1 (congrArg _ (by decide)), hleft, hright,
    (hplain hleft).2 _ hright (congrArg _ (by decide))⟩
  decide +kernel

/-- The empty word and the symbol `ε` have different automata, which are drawn with the same
text. -/
theorem not_render_injective_epsilon :
    ¬ ∀ library : DotLibrary, library.Conforms → ∀ r r' : Regex,
      (ofRegex r).drawing.render library = (ofRegex r').drawing.render library →
        ofRegex r = ofRegex r' := by
  intro h
  have hsame : (ofRegex .epsilon).drawing.render .strict =
      (ofRegex (.symbol 'ε')).drawing.render .strict := rfl
  exact absurd (h .strict DotLibrary.conforms_strict _ _ hsame) (by decide)

end Nfa

end RegexEquiv
