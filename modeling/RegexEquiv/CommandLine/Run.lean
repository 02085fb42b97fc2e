import RegexEquiv.Alphabet.Inferred
import RegexEquiv.CommandLine.Options
import RegexEquiv.Compare
import RegexEquiv.Drawing
import RegexEquiv.Text.Colour

/-!
# A run of the command line

A request names two patterns and what to decide about them. A run compiles the first pattern, then
the second, and then compares; the drawings of a pattern are due as soon as it is compiled, so those
of the first are due even when the second fails. The report gives the exit code and what is printed:
code 0 if the languages are equal or included, code 1 with a separating word if not, and code 2 with
a message on an error. A request that cannot be served for reasons outside the patterns has code 1
and prints nothing on the standard output. `serve` puts this together; what it asks of the file
system is left to its caller.
-/

namespace RegexEquiv.CommandLine

/-- What to decide about which patterns. -/
structure Request where
  left : List Char
  right : List Char
  alphabet : Option (List Char)
  subset : Bool
  limits : Limits
deriving DecidableEq, Repr

/-- What was decided. -/
inductive Answer where
  | equivalence (verdict : Verdict)
  | inclusion (witness : Option Word)
deriving DecidableEq, Repr

/-- A file with the drawing of an automaton. -/
structure DrawingFile where
  name : List Char
  content : List Char
deriving DecidableEq, Repr

/-- A run: the drawings that fell due, in order, and what was decided. -/
structure Run where
  drawings : List DrawingFile
  outcome : Except Error Answer

/-! ## Input -/

/-- The first line of a text, without its end, and the text after it. -/
def splitLine (text : List Char) : List Char × List Char :=
  let line := text.takeWhile (· ≠ '\n')
  match text.dropWhile (· ≠ '\n') with
  | [] => (line, [])
  | _ :: rest => (if line.getLast? = some '\r' then line.dropLast else line, rest)

/-- The request of some options, the patterns being read from a text when no operand names them.
A single operand makes no request. -/
def Options.request? (o : Options) (input : List Char) : Option Request :=
  let make left right := some ⟨left, right, o.alphabet, o.subset, o.limits⟩
  match o.operands with
  | [] =>
      let (left, rest) := splitLine input
      make left (splitLine rest).1
  | [left, right] => make left right
  | _ => none

/-! ## Deciding -/

/-- The files with the drawings of a compiled pattern under a name. -/
def drawingFiles (name : Char) (c : Compiled) : List DrawingFile :=
  [⟨name :: "_nfa.dot".toList, c.nfa.drawing.dot⟩, ⟨name :: "_dfa.dot".toList, c.dfa.drawing.dot⟩]

namespace Request

/-- The alphabet to read the patterns over: the given one, or that of the patterns. -/
def readingAlphabet (request : Request) : Except Error Alphabet :=
  match request.alphabet with
  | some symbols => .ok (.ofList symbols)
  | none => (Alphabet.ofPatterns [request.left, request.right]).mapError .malformed

/-- Decides about two automata. -/
def decide (request : Request) (left right : Dfa) : Except Error Answer :=
  if request.subset then (left.inclusionWitness right request.limits).map .inclusion
  else (left.verdict right request.limits).map .equivalence

/-- Serves a request. -/
def run (request : Request) : Run :=
  match request.readingAlphabet with
  | .error e => ⟨[], .error e⟩
  | .ok alphabet =>
      match Compiled.ofPattern request.left alphabet request.limits with
      | .error e => ⟨[], .error e⟩
      | .ok left =>
          match Compiled.ofPattern request.right alphabet request.limits with
          | .error e => ⟨drawingFiles 'a' left, .error e⟩
          | .ok right =>
              ⟨drawingFiles 'a' left ++ drawingFiles 'b' right, request.decide left.dfa right.dfa⟩

end Request

/-! ## Reporting -/

/-- The exit code, and what is printed on the standard output and for errors. -/
structure Report where
  code : Nat
  output : List Char
  errors : List Char
deriving DecidableEq, Repr

namespace Report

/-- The report of a request that cannot be served for reasons outside the patterns. -/
def failure (reason : List Char) : Report := ⟨1, [], reason ++ ['\n']⟩

/-- The report of arguments that are refused. -/
def usage : Report := ⟨2, [], "error: the arguments cannot be read\n".toList⟩

/-- The report that the languages are equal or included. -/
def agreed (colours : Bool) (text : List Char) : Report :=
  ⟨0, Text.Paint.green.apply colours text ++ ['\n'], []⟩

/-- The report that a word tells the languages apart. -/
def separated (colours : Bool) (text : List Char) (witness : Word) (name : Char) : Report :=
  ⟨1, Text.Paint.red.apply colours text ++ ": ".toList ++ Text.quoted witness ++
    " is accepted only by ".toList ++ [name, '\n'], []⟩

/-- The report of an error; a pattern that cannot be read is shown with its fault marked. -/
def ofError (colours : Bool) (e : Error) : Report :=
  let shown : List Char := match e with
    | .malformed e => "  ".toList ++ e.highlight (Text.Paint.red.apply colours) ++ ['\n']
    | _ => []
  ⟨2, [], Text.Paint.boldRed.apply colours "error".toList ++ ": ".toList ++ e.message ++
    ['\n'] ++ shown⟩

/-- The name under which a side is reported. -/
def sideName : Side → Char
  | .left => 'A'
  | .right => 'B'

/-- The report of what was decided. -/
def ofOutcome (colours : Bool) : Except Error Answer → Report
  | .error e => ofError colours e
  | .ok (.equivalence .equivalent) => agreed colours "equivalent".toList
  | .ok (.equivalence (.different w side)) =>
      separated colours "not equivalent".toList w (sideName side)
  | .ok (.inclusion none) => agreed colours "subset".toList
  | .ok (.inclusion (some w)) =>
      separated colours "not a subset".toList w (sideName .left)

end Report

/-! ## Serving -/

/-- What a run asks of the file system. Each action may fail with a reason. -/
structure FileSystem (m : Type → Type) where
  /-- Makes a directory if it is missing. -/
  makeDirectory (directory : List Char) : ExceptT (List Char) m Unit
  /-- Writes a file into a directory. -/
  write (directory : List Char) (file : DrawingFile) : ExceptT (List Char) m Unit

section

variable {m : Type → Type} [Monad m]

/-- Writes drawings into a directory. It stops at the first action that fails. -/
def FileSystem.save (files : FileSystem m) (directory : List Char) (drawings : List DrawingFile) :
    ExceptT (List Char) m Unit := do
  unless drawings.isEmpty do
    files.makeDirectory directory
  drawings.forM (files.write directory)

/-- Serves what the arguments ask for: makes the request, runs it, writes the drawings if there is a
directory for them, and reports. -/
def serve (files : FileSystem m) (colours : Bool) (o : Options) (input : List Char) : m Report :=
  match o.request? input with
  | none => return .failure "error: either give both expressions or none".toList
  | some request => do
      let run := request.run
      match o.drawings with
      | none => return .ofOutcome colours run.outcome
      | some directory =>
          match ← (files.save directory run.drawings).run with
          | .ok () => return .ofOutcome colours run.outcome
          | .error reason => return .failure ("error: ".toList ++ reason)

end

end RegexEquiv.CommandLine
