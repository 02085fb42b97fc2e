import RegexEquiv.CommandLine.Run
import RegexEquiv.Proofs.Regex.Culprit
import RegexEquiv.Proofs.Text.Quoted

/-!
# What is printed

The lines that are printed for an answer of the library, letter by letter: those on the standard
output when the languages could be compared, and those about an error when they could not
(`Prints`). They say which answer it is, so no two answers print the same (`Prints.unique`). The
report of an answer prints these lines under the exit code of the answer: `Report.tells_ofOutcome`.
-/

namespace RegexEquiv

open Text (SelfDelimiting)

/-- `cause.Says text` says how a cause is worded. -/
inductive FaultCause.Says : FaultCause → List Char → Prop where
  | unclosedGroup : Says .unclosedGroup "')' expected".toList
  | unopenedGroup : Says .unopenedGroup "unexpected ')'".toList
  | missingOperand : Says .missingOperand "operator has no operand".toList
  | unknownSymbol (c : Char) : Says (.unknownSymbol c)
      ("symbol ".toList ++ Text.quotedChar c ++ " is not in the alphabet".toList)
  | danglingEscape :
      Says .danglingEscape "unexpected end of the expression after '\\'".toList
  | unclosedClass : Says .unclosedClass "']' expected".toList
  | invalidRange (lo hi : Char) : Says (.invalidRange lo hi)
      ("invalid range ".toList ++ Text.quotedChar lo ++ ['-'] ++ Text.quotedChar hi)
  | nestingTooDeep : Says .nestingTooDeep "parentheses nested too deep".toList

theorem FaultCause.says_message (cause : FaultCause) : cause.Says cause.message := by
  cases cause with
  | unclosedGroup => exact .unclosedGroup
  | unopenedGroup => exact .unopenedGroup
  | missingOperand => exact .missingOperand
  | unknownSymbol c => exact .unknownSymbol c
  | danglingEscape => exact .danglingEscape
  | unclosedClass => exact .unclosedClass
  | invalidRange lo hi => exact .invalidRange lo hi
  | nestingTooDeep => exact .nestingTooDeep

/-- The wording of a cause says which cause it is and where it ends. -/
theorem FaultCause.Says.append_inj {cause cause' : FaultCause} {text text' x y : List Char}
    (h : cause.Says text) (h' : cause'.Says text') (heq : text ++ x = text' ++ y) :
    cause = cause' ∧ x = y := by
  cases h with
  | unknownSymbol c =>
      cases h' with
      | unknownSymbol d =>
          simp only [List.append_assoc, List.append_cancel_left_eq] at heq
          obtain ⟨rfl, hrest⟩ := Text.selfDelimiting_quotedChar heq
          exact ⟨rfl, List.append_cancel_left hrest⟩
      | _ => simp at heq
  | invalidRange lo hi =>
      cases h' with
      | invalidRange lo' hi' =>
          simp only [List.append_assoc, List.append_cancel_left_eq] at heq
          obtain ⟨rfl, hrest⟩ := Text.selfDelimiting_quotedChar heq
          obtain ⟨rfl, hxy⟩ := Text.selfDelimiting_quotedChar (List.cons.inj hrest).2
          exact ⟨rfl, hxy⟩
      | _ => simp at heq
  | _ =>
      cases h' <;> simp at heq
      exact ⟨rfl, heq⟩

namespace CommandLine

/-! ## Lines -/

/-- `Prints colours answer output errors` says what is printed for an answer: `output` on the
standard output, and `errors` about an error. Between `\x1b[` and `m` stand the parameters that
select a paint, and `\x1b[0m` ends it. A pattern with a fault is shown under the message, with the
character at fault painted. -/
inductive Prints (colours : Bool) : Except Error Answer → List Char → List Char → Prop where
  | equivalent : Prints colours (.ok (.equivalence .equivalent))
      (if colours then "\x1b[32mequivalent\x1b[0m\n" else "equivalent\n").toList []
  | leftOnly (w : Word) : Prints colours (.ok (.equivalence (.different w .left)))
      ((if colours then "\x1b[31mnot equivalent\x1b[0m: " else "not equivalent: ").toList ++
        Text.quoted w ++ " is accepted only by A\n".toList) []
  | rightOnly (w : Word) : Prints colours (.ok (.equivalence (.different w .right)))
      ((if colours then "\x1b[31mnot equivalent\x1b[0m: " else "not equivalent: ").toList ++
        Text.quoted w ++ " is accepted only by B\n".toList) []
  | subset : Prints colours (.ok (.inclusion none))
      (if colours then "\x1b[32msubset\x1b[0m\n" else "subset\n").toList []
  | notSubset (w : Word) : Prints colours (.ok (.inclusion (some w)))
      ((if colours then "\x1b[31mnot a subset\x1b[0m: " else "not a subset: ").toList ++
        Text.quoted w ++ " is accepted only by A\n".toList) []
  | malformed (before : List Char) (c : Char) (after : List Char) {cause : FaultCause}
      {text : List Char} (hcause : cause.Says text) :
      Prints colours (.error (.malformed ⟨⟨before.length, cause⟩, before ++ c :: after⟩)) []
        ((if colours then "\x1b[1;31merror\x1b[0m: " else "error: ").toList ++
          "syntax error at position ".toList ++ Nat.toDigits 10 before.length ++ " in ".toList ++
          Text.quoted (before ++ c :: after) ++ ": ".toList ++ text ++ "\n".toList ++
          "  ".toList ++ before ++
          (if colours then "\x1b[31m".toList ++ c :: "\x1b[0m".toList else [c]) ++ after ++
          "\n".toList)
  | determinization (limit : Nat) : Prints colours (.error (.overBudget .determinization limit)) []
      ((if colours then "\x1b[1;31merror\x1b[0m: " else "error: ").toList ++
        "determinization exceeded the limit of ".toList ++ Nat.toDigits 10 limit ++
        " states\n".toList)
  | productSearch (limit : Nat) : Prints colours (.error (.overBudget .productSearch limit)) []
      ((if colours then "\x1b[1;31merror\x1b[0m: " else "error: ").toList ++
        "product search exceeded the limit of ".toList ++ Nat.toDigits 10 limit ++
        " states\n".toList)

/-- A line with a quoted word says which word it is and what follows it. -/
theorem line_inj {label tail tail' : List Char} {w w' : Word}
    (h : label ++ Text.quoted w ++ tail = label ++ Text.quoted w' ++ tail') :
    w = w' ∧ tail = tail' := by
  rw [List.append_assoc, List.append_assoc] at h
  exact Text.selfDelimiting_quoted (List.append_cancel_left h)

/-- A line with a number in it says which number it is. -/
theorem limit_inj {label : List Char} {m n : Nat}
    (h : label ++ Nat.toDigits 10 m ++ " states\n".toList =
      label ++ Nat.toDigits 10 n ++ " states\n".toList) : m = n :=
  Text.toDigits_injective (by omega) (by omega)
    (List.append_cancel_left (List.append_cancel_right h))

variable {colours : Bool} {answer other : Except Error Answer}
  {output output' errors errors' : List Char}

/-- No two answers print the same. -/
theorem Prints.unique (h : Prints colours answer output errors)
    (h' : Prints colours other output' errors') (houtput : output = output')
    (herrors : errors = errors') : answer = other := by
  cases h with
  | equivalent =>
      cases h' with
      | equivalent => rfl
      | _ => cases colours <;> simp at houtput
  | leftOnly w =>
      cases h' with
      | leftOnly w' => rw [(line_inj houtput).1]
      | rightOnly w' => exact absurd (line_inj houtput).2 (by decide)
      | _ => cases colours <;> simp at houtput
  | rightOnly w =>
      cases h' with
      | leftOnly w' => exact absurd (line_inj houtput).2 (by decide)
      | rightOnly w' => rw [(line_inj houtput).1]
      | _ => cases colours <;> simp at houtput
  | subset =>
      cases h' with
      | subset => rfl
      | _ => cases colours <;> simp at houtput
  | notSubset w =>
      cases h' with
      | notSubset w' => rw [(line_inj houtput).1]
      | _ => cases colours <;> simp at houtput
  | malformed before c after hcause =>
      cases h' with
      | malformed before' c' after' hcause' =>
          -- The number ends at the blank behind it, the pattern at its quote, the wording by itself.
          simp only [List.append_assoc, List.append_cancel_left_eq] at herrors
          have hspace : ∀ k, Nat.digitChar k ≠ ' ' := fun k => Nat.digitChar_ne ' ' rfl
          obtain ⟨hposition, -, hrest⟩ :=
            Text.toDigits_append_cons_inj (by omega) (by omega) hspace hspace herrors
          replace hrest : "in ".toList ++ _ = "in ".toList ++ _ := hrest
          obtain ⟨hpattern, hrest⟩ :=
            Text.selfDelimiting_quoted (List.append_cancel_left hrest)
          obtain ⟨rfl, -⟩ := hcause.append_inj hcause' (List.append_cancel_left hrest)
          rw [hposition, hpattern]
      | _ => cases colours <;> simp at houtput herrors
  | determinization limit =>
      cases h' with
      | determinization limit' => rw [limit_inj herrors]
      | _ => cases colours <;> simp at houtput herrors
  | productSearch limit =>
      cases h' with
      | productSearch limit' => rw [limit_inj herrors]
      | _ => cases colours <;> simp at houtput herrors

theorem Prints.of_eq (h : Prints colours answer output errors) (houtput : output = output')
    (herrors : errors = errors') : Prints colours answer output' errors' :=
  houtput ▸ herrors ▸ h

/-! ## Reports -/

/-- `Tells colours answer report` says that a report tells what the library answers. -/
structure Report.Tells (colours : Bool) (answer : Except Error Answer) (report : Report) :
    Prop where
  /-- Just errors have code 2 and leave the standard output empty. -/
  failed_iff : report.code = 2 ∧ report.output = [] ↔ ∃ e, answer = .error e
  /-- The code is 0 when no word tells the languages apart. -/
  agreed_iff : report.code = 0 ↔
    answer = .ok (.equivalence .equivalent) ∨ answer = .ok (.inclusion none)
  /-- The code is 1 when some word does. -/
  separated_iff : report.code = 1 ↔
    (∃ w side, answer = .ok (.equivalence (.different w side))) ∨
      ∃ w, answer = .ok (.inclusion (some w))
  prints : Prints colours answer report.output report.errors

end CommandLine

/-- `e.Arises` says that an error can come up when patterns are compared: the fault of a pattern is
at one of its characters, or a budget is used up. -/
def Error.Arises : Error → Prop
  | malformed e => e.position < e.pattern.length
  | overBudget _ _ => True
  | unrenderable _ => False

namespace CommandLine.Report

variable {colours : Bool} {outcome : Except Error Answer}

/-- The line about a separating word: a label, the word in quotes, and the side. -/
theorem output_separated {text label tail : List Char} {name : Char} (w : Word)
    (hlabel : Text.Paint.red.apply colours text ++ ": ".toList = label)
    (htail : " is accepted only by ".toList ++ [name, '\n'] = tail) :
    label ++ Text.quoted w ++ tail = (separated colours text w name).output := by
  rw [← hlabel, ← htail, separated]
  simp only [List.append_assoc]

/-- The line about a budget that is used up: a label, the budget, and what it counts. -/
theorem errors_overBudget {label tail : List Char} {stage : Stage} (limit : Nat)
    (hlabel : Text.Paint.boldRed.apply colours "error".toList ++ ": ".toList ++
      (stage.name ++ " exceeded the limit of ".toList) = label)
    (htail : " states".toList ++ ['\n'] = tail) :
    label ++ Nat.toDigits 10 limit ++ tail =
      (ofError colours (.overBudget stage limit)).errors := by
  have hprinted : (ofError colours (.overBudget stage limit)).errors =
      Text.Paint.boldRed.apply colours "error".toList ++ ": ".toList ++
        (stage.name ++ " exceeded the limit of ".toList ++ Nat.toDigits 10 limit ++
          " states".toList) ++ ['\n'] ++ [] := rfl
  rw [hprinted, ← hlabel, ← htail]
  simp only [List.append_assoc, List.append_nil]

/-- What is printed for an error that can come up. -/
theorem prints_ofError {e : Error} (h : e.Arises) :
    Prints colours (.error e) [] (ofError colours e).errors := by
  cases e with
  | malformed e =>
      have hprinted : (ofError colours (.malformed e)).errors =
          Text.Paint.boldRed.apply colours "error".toList ++ ": ".toList ++
            ("syntax error at position ".toList ++ Nat.toDigits 10 e.position ++ " in ".toList ++
              Text.quoted e.pattern ++ ": ".toList ++ e.cause.message) ++ ['\n'] ++
            ("  ".toList ++ e.highlight (Text.Paint.red.apply colours) ++ ['\n']) := rfl
      rw [hprinted]
      obtain ⟨⟨position, cause⟩, pattern⟩ := e
      obtain ⟨before, c, after, rfl, rfl⟩ := SyntaxError.exists_split h
      refine (Prints.malformed before c after cause.says_message).of_eq rfl ?_
      rw [SyntaxError.highlight_eq]
      cases colours <;> simp [Text.Paint.apply, Text.Paint.code]
  | overBudget stage limit =>
      cases stage with
      | determinization =>
          refine (Prints.determinization limit).of_eq rfl (errors_overBudget limit ?_ rfl)
          cases colours <;> rfl
      | productSearch =>
          refine (Prints.productSearch limit).of_eq rfl (errors_overBudget limit ?_ rfl)
          cases colours <;> rfl
  | unrenderable reason => exact h.elim

/-- What is printed for an outcome. -/
theorem prints_ofOutcome (h : ∀ e, outcome = .error e → e.Arises) :
    Prints colours outcome (ofOutcome colours outcome).output
      (ofOutcome colours outcome).errors := by
  rcases outcome with e | (_ | ⟨w, side⟩) | (_ | w)
  · exact prints_ofError (h e rfl)
  · refine Prints.equivalent.of_eq ?_ rfl
    cases colours <;> rfl
  · have hlabel : Text.Paint.red.apply colours "not equivalent".toList ++ ": ".toList =
        (if colours then "\x1b[31mnot equivalent\x1b[0m: " else "not equivalent: ").toList := by
      cases colours <;> rfl
    cases side with
    | left => exact (Prints.leftOnly w).of_eq (output_separated w hlabel rfl) rfl
    | right => exact (Prints.rightOnly w).of_eq (output_separated w hlabel rfl) rfl
  · refine Prints.subset.of_eq ?_ rfl
    cases colours <;> rfl
  · refine (Prints.notSubset w).of_eq (output_separated w ?_ rfl) rfl
    cases colours <;> rfl

/-- The report of an outcome tells it. -/
theorem tells_ofOutcome (h : ∀ e, outcome = .error e → e.Arises) :
    Tells colours outcome (ofOutcome colours outcome) where
  failed_iff := by
    rcases outcome with e | (_ | ⟨w, side⟩) | (_ | w) <;>
      simp [ofOutcome, ofError, agreed, separated]
  agreed_iff := by
    rcases outcome with e | (_ | ⟨w, side⟩) | (_ | w) <;>
      simp [ofOutcome, ofError, agreed, separated]
  separated_iff := by
    rcases outcome with e | (_ | ⟨w, side⟩) | (_ | w) <;>
      simp [ofOutcome, ofError, agreed, separated]
  prints := prints_ofOutcome h

/-- A report tells one answer only. -/
theorem Tells.unique {answer other : Except Error Answer} {report : Report}
    (h : report.Tells colours answer) (h' : report.Tells colours other) : answer = other :=
  h.prints.unique h'.prints rfl rfl

end CommandLine.Report

end RegexEquiv
