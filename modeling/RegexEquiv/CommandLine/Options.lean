import RegexEquiv.Error

/-!
# Arguments of the command line

An argument that starts with a hyphen and is longer than that is an option, until a lone double
hyphen makes everything after it an operand. A value follows its option as the next argument, which
must not look like an option itself, or is attached to it: behind an equals sign to a long option,
directly or behind an equals sign to a short one. Every option may be given once, except the one
that asks for more detail. At most two operands may be given.
-/

namespace RegexEquiv.CommandLine

/-- The options that take a value. -/
inductive ValueOption where
  | alphabet
  | dfaStates
  | productStates
  | drawings
deriving DecidableEq, Repr

/-- What the arguments ask for. -/
structure Options where
  operands : List (List Char) := []
  /-- The symbols to read the patterns over. -/
  alphabet : Option (List Char) := none
  /-- Whether to decide inclusion instead of equivalence. -/
  subset : Bool := false
  limits : Limits := {}
  /-- The directory for drawings. -/
  drawings : Option (List Char) := none
  /-- How often more detail was asked for. -/
  verbosity : Nat := 0
deriving DecidableEq, Repr

/-- Why arguments are refused. -/
inductive UsageFault where
  | unknownOption (name : List Char)
  | repeatedOption
  | missingValue (option : ValueOption)
  | unexpectedValue (name : List Char)
  | invalidNumber (text : List Char)
  | tooManyOperands
deriving DecidableEq, Repr

/-- Numbers are below this. -/
def numberBound : Nat := Nat.pow 2 64

/-- A number in decimal digits, after an optional plus sign. -/
def number? (text : List Char) : Option Nat :=
  let digits := match text with
    | '+' :: rest => rest
    | _ => text
  if digits.isEmpty || !digits.all Char.isDigit then none
  else
    let n := digits.foldl (fun n c => 10 * n + (c.toNat - '0'.toNat)) 0
    if n < numberBound then some n else none

namespace Options

/-- Fills a place that is still free. -/
def fill {α : Type} (place : Option α) (value : α) : Except UsageFault (Option α) :=
  match place with
  | some _ => .error .repeatedOption
  | none => .ok (some value)

/-- The number that an option gets as its value. -/
def readNumber (text : List Char) : Except UsageFault Nat :=
  match number? text with
  | some n => .ok n
  | none => .error (.invalidNumber text)

/-- Gives an option its value. -/
def set (o : Options) (option : ValueOption) (value : List Char) : Except UsageFault Options := do
  match option with
  | .alphabet => return { o with alphabet := ← fill o.alphabet value }
  | .drawings => return { o with drawings := ← fill o.drawings value }
  | .dfaStates =>
      let states ← fill o.limits.dfaStates (← readNumber value)
      return { o with limits := { o.limits with dfaStates := states } }
  | .productStates =>
      let states ← fill o.limits.productStates (← readNumber value)
      return { o with limits := { o.limits with productStates := states } }

/-- Asks for inclusion. -/
def setSubset (o : Options) : Except UsageFault Options :=
  if o.subset then .error .repeatedOption else .ok { o with subset := true }

/-- Asks for more detail. -/
def addVerbosity (o : Options) : Options := { o with verbosity := o.verbosity + 1 }

/-- Adds an operand. -/
def addOperand (o : Options) (operand : List Char) : Except UsageFault Options :=
  if o.operands.length < 2 then .ok { o with operands := o.operands ++ [operand] }
  else .error .tooManyOperands

end Options

/-- The reader of arguments: what they ask for so far, the option that waits for its value, and
whether only operands can follow. -/
structure ArgumentReader where
  options : Options
  waiting : Option ValueOption
  operandsOnly : Bool
deriving DecidableEq, Repr

namespace ArgumentReader

/-- The reader before the first argument. -/
def start : ArgumentReader := ⟨{}, none, false⟩

/-- The option that takes a value under a long name. -/
def valueOption? (name : List Char) : Option ValueOption :=
  [("alphabet", ValueOption.alphabet), ("max-dfa-states", .dfaStates),
    ("max-product-states", .productStates), ("dot", .drawings)].findSome? fun (long, option) =>
      if long.toList = name then some option else none

/-- Takes in a long option, with its attached value if there is one. -/
def readLong (reader : ArgumentReader) (name : List Char) (value : Option (List Char)) :
    Except UsageFault ArgumentReader := do
  match valueOption? name, value with
  | some option, some value =>
      return { reader with options := ← reader.options.set option value }
  | some option, none => return { reader with waiting := some option }
  | none, value =>
      if name = "subset".toList then
        if value.isSome then throw (.unexpectedValue name)
        return { reader with options := ← reader.options.setSubset }
      else if name = "verbose".toList then
        if value.isSome then throw (.unexpectedValue name)
        return { reader with options := reader.options.addVerbosity }
      else throw (.unknownOption name)

/-- Takes in a group of short options. -/
def readShort (reader : ArgumentReader) : List Char → Except UsageFault ArgumentReader
  | [] => .ok reader
  | 'v' :: rest => { reader with options := reader.options.addVerbosity }.readShort rest
  | ['a'] => .ok { reader with waiting := some .alphabet }
  | 'a' :: '=' :: value | 'a' :: value =>
      (reader.options.set .alphabet value).map fun options => { reader with options }
  | c :: _ => .error (.unknownOption [c])

/-- Takes in an argument. -/
def step (reader : ArgumentReader) (argument : List Char) : Except UsageFault ArgumentReader := do
  if reader.operandsOnly then
    return { reader with options := ← reader.options.addOperand argument }
  match reader.waiting, argument with
  | some option, '-' :: _ :: _ => throw (.missingValue option)
  | some option, value =>
      return { reader with waiting := none, options := ← reader.options.set option value }
  | none, ['-', '-'] => return { reader with operandsOnly := true }
  | none, '-' :: '-' :: long =>
      let name := long.takeWhile (· ≠ '=')
      let value := match long.dropWhile (· ≠ '=') with
        | [] => none
        | _ :: value => some value
      reader.readLong name value
  | none, '-' :: c :: rest => reader.readShort (c :: rest)
  | none, operand => return { reader with options := ← reader.options.addOperand operand }

/-- What the arguments ask for, unless an option still waits for its value. -/
def finish (reader : ArgumentReader) : Except UsageFault Options :=
  match reader.waiting with
  | some option => .error (.missingValue option)
  | none => .ok reader.options

end ArgumentReader

/-- Reads the arguments of the command line. -/
def Options.ofArguments (arguments : List (List Char)) : Except UsageFault Options :=
  arguments.foldlM ArgumentReader.step .start >>= ArgumentReader.finish

end RegexEquiv.CommandLine
