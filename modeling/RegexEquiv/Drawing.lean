import RegexEquiv.Dfa.Basic
import RegexEquiv.Error
import RegexEquiv.Nfa.Basic
import RegexEquiv.Text.Quoted

/-!
# Drawings of automata

A drawing lists the states of an automaton and its labelled arrows, and is written in the DOT
format: one statement for the entry point, one for the arrow from it to the start state, then one
for each state, circled twice if it accepts, and one for each arrow. A nondeterministic automaton
has an arrow for every move, silent moves being labelled with an epsilon. A deterministic one has an
arrow for every two states that some symbol joins, labelled with all such symbols.

The text is put together by a library (`DotLibrary`), which decides how statements are laid out and
may refuse a name or a graph: then there is no drawing (`Drawing.render`). What the library in use
writes when it refuses nothing, all on one line, is `Drawing.dot`.
-/

namespace RegexEquiv

/-- A labelled arrow between two states. -/
structure Arrow where
  source : Nat
  target : Nat
  label : List Char
deriving DecidableEq, Repr

/-- A drawing: its title, the start state, whether each state accepts, and the arrows. -/
structure Drawing where
  title : List Char
  start : Nat
  accepting : List Bool
  arrows : List Arrow
deriving DecidableEq, Repr

/-- A key, and the value that it is set to. -/
structure Setting where
  key : List Char
  value : List Char
deriving DecidableEq, Repr

/-- What drawings ask of a library that writes the DOT format. A refusal comes with a reason. -/
structure DotLibrary where
  /-- Takes a name for an identifier. -/
  identifier : List Char → Except (List Char) Unit
  /-- A text in quotes. -/
  quote : List Char → List Char
  /-- The statement of a node under a name, with a setting. -/
  node : List Char → Setting → List Char
  /-- The statement of an edge from a node to another, with a setting or without. -/
  edge : List Char → List Char → Option Setting → List Char
  /-- A directed graph with a title and statements. -/
  digraph : List Char → List (List Char) → Except (List Char) (List Char)

namespace Drawing

/-- The name of a state. -/
def stateName (state : Nat) : List Char := 'q' :: Nat.toDigits 10 state

/-- The shape of a state. -/
def stateShape (accepting : Bool) : List Char :=
  (if accepting then "doublecircle" else "circle").toList

/-- A character of a label, behind a backslash if it is a quote or a backslash itself. -/
def protect (c : Char) : List Char := if c = '\\' ∨ c = '"' then ['\\', c] else [c]

/-- A statement: the entry point, the arrow from it to the start state, a state, or an arrow. -/
inductive Statement where
  | entry
  | start (state : Nat)
  | state (accepting : Bool) (state : Nat)
  | arrow (a : Arrow)
deriving DecidableEq, Repr

namespace Statement

/-- The names that a statement uses, in order. -/
def names : Statement → List (List Char)
  | entry => ["entry".toList, "shape".toList, "point".toList]
  | start s => ["entry".toList, stateName s]
  | state accepting s => [stateName s, "shape".toList, stateShape accepting]
  | arrow a => [stateName a.source, stateName a.target, "label".toList]

/-- A statement as a library writes it. -/
def write (library : DotLibrary) : Statement → List Char
  | entry => library.node "entry".toList ⟨"shape".toList, "point".toList⟩
  | start s => library.edge "entry".toList (stateName s) none
  | state accepting s => library.node (stateName s) ⟨"shape".toList, stateShape accepting⟩
  | arrow a =>
      library.edge (stateName a.source) (stateName a.target)
        (some ⟨"label".toList, library.quote (a.label.flatMap protect)⟩)

end Statement

/-- The statements of a drawing, in order. -/
def statements (drawing : Drawing) : List Statement :=
  .entry :: .start drawing.start ::
    (drawing.accepting.mapIdx (fun s accepting => .state accepting s) ++ drawing.arrows.map .arrow)

/-- Writes a drawing with a library: all names are to be taken, the title last. -/
def render (library : DotLibrary) (drawing : Drawing) : Except Error (List Char) :=
  Except.mapError .unrenderable do
    (drawing.statements.flatMap Statement.names).forM library.identifier
    library.identifier drawing.title
    library.digraph drawing.title (drawing.statements.map (·.write library))

end Drawing

/-! ## The library in use -/

/-- Whether a name consists of letters, digits and underscores, and does not begin with a digit. -/
def isIdentifier (name : List Char) : Bool :=
  name.all (fun c => c.isAlphanum || c == '_') && name.head?.any fun first => !first.isDigit

/-- A setting in brackets. -/
def Setting.text (s : Setting) : List Char := '[' :: s.key ++ '=' :: s.value ++ [';', ']']

/-- The text of a directed graph with a title and statements. -/
def Drawing.digraph (title : List Char) (statements : List (List Char)) : List Char :=
  "digraph ".toList ++ title ++ '{' :: statements.flatMap (· ++ [';']) ++ ['}']

/-- The library that refuses every name but identifiers, and writes all on one line. -/
def DotLibrary.strict : DotLibrary where
  identifier name := if isIdentifier name then .ok () else .error name
  quote := Text.quoted
  node name setting := name ++ setting.text
  edge source target setting :=
    source ++ '-' :: '>' :: target ++ (setting.map Setting.text).getD []
  digraph title statements :=
    if isIdentifier title then .ok (Drawing.digraph title statements) else .error title

/-- A drawing in the DOT format. -/
def Drawing.dot (drawing : Drawing) : List Char :=
  digraph drawing.title (drawing.statements.map (·.write .strict))

/-! ## Automata -/

/-- The drawing of a nondeterministic automaton: for each state, its silent moves, then the moves
that read a symbol. -/
def Nfa.drawing (n : Nfa) : Drawing where
  title := "nfa".toList
  start := n.start
  accepting := (List.range n.size).map (· == n.accept)
  arrows := (List.range n.size).flatMap fun source =>
    let moves := n.movesFrom source
    moves.silent.map (⟨source, ·, ['ε']⟩) ++
      moves.reading.map fun (c, target) => ⟨source, target, [c]⟩

namespace Dfa

/-- Adds a symbol to the label of its target, behind a comma. A target without a label gets one. -/
def addToLabel : List (Nat × List Char) → Char × Nat → List (Nat × List Char)
  | [], (c, target) => [(target, [c])]
  | (other, label) :: labels, (c, target) =>
      if other = target then (other, label ++ [',', c]) :: labels
      else (other, label) :: addToLabel labels (c, target)

/-- The targets of a state, in the order in which its row first mentions them, each with the
symbols that lead there. -/
def labels (d : Dfa) (source : Nat) : List (Nat × List Char) :=
  (d.alphabet.toList.zip (d.row source)).foldl addToLabel []

/-- The drawing of a deterministic automaton: for each state, an arrow to each of its targets. -/
def drawing (d : Dfa) : Drawing where
  title := "dfa".toList
  start := d.start
  accepting := d.states.toList.map DfaState.accepting
  arrows := (List.range d.size).flatMap fun source =>
    (d.labels source).map fun entry => ⟨source, entry.1, entry.2⟩

end Dfa

end RegexEquiv
