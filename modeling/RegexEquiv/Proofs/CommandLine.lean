import Mathlib.Data.List.TakeWhile
import RegexEquiv.Proofs.Alphabet.Inferred
import RegexEquiv.Proofs.Budget
import RegexEquiv.Proofs.CommandLine.Report
import RegexEquiv.Proofs.Compare

/-!
# The command line reports what the library decides

The command line does not call the comparisons of patterns: it compiles the patterns itself, so that
it can draw them, and then decides about their automata. It comes to what the comparisons give,
error for error (`Request.outcome_run`), and an error is that of a pattern or of a budget
(`Request.arises_of_answer`), so there are lines for it. Drawings only add effects as long as they
can be written (`FileSystem.Accepts.save`), and the lines of a text are the patterns that were put
there (`FirstLine.splitLine_eq`). So what is reported hangs on the answer of the library alone:
`serve_agrees`.
-/

namespace RegexEquiv.CommandLine

/-! ## The outcome of a run -/

namespace Request

/-- What the library answers to a request over an alphabet. -/
def answerOver (request : Request) (alphabet : Alphabet) : Except Error Answer :=
  if request.subset then
    (inclusion request.left request.right alphabet request.limits).map .inclusion
  else (equivalence request.left request.right alphabet request.limits).map .equivalence

/-- What the library answers to a request. -/
def answer (request : Request) : Except Error Answer :=
  match request.alphabet with
  | some symbols => request.answerOver (.ofList symbols)
  | none =>
      (Alphabet.ofPatterns [request.left, request.right]).mapError .malformed >>= request.answerOver

/-- The library decides about the automata of the patterns, the first of which is compiled first. -/
theorem answerOver_eq (request : Request) (alphabet : Alphabet) : request.answerOver alphabet =
    (do
      let left ← Compiled.ofPattern request.left alphabet request.limits
      let right ← Compiled.ofPattern request.right alphabet request.limits
      request.decide left.dfa right.dfa) := by
  unfold answerOver inclusion equivalence compile decide
  cases Compiled.ofPattern request.left alphabet request.limits with
  | error e => exact ite_self _
  | ok left =>
      cases Compiled.ofPattern request.right alphabet request.limits with
      | error e => exact ite_self _
      | ok right => rfl

/-- A run comes to what the library answers. -/
theorem outcome_run (request : Request) : request.run.outcome = request.answer := by
  have hanswer : request.answer = request.readingAlphabet >>= request.answerOver := by
    unfold answer readingAlphabet
    cases request.alphabet with
    | none => rfl
    | some symbols => rfl
  rw [hanswer, run]
  cases request.readingAlphabet with
  | error e => rfl
  | ok alphabet =>
      show _ = request.answerOver alphabet
      rw [answerOver_eq]
      dsimp only
      cases Compiled.ofPattern request.left alphabet request.limits with
      | error e => rfl
      | ok left =>
          dsimp only
          cases Compiled.ofPattern request.right alphabet request.limits with
          | error e => rfl
          | ok right => rfl

end Request

/-! ## Errors -/

section

variable {a b pattern : List Char} {alphabet : Alphabet} {limits : Limits} {e : Error}

/-- A pattern that cannot be read does not compile. -/
theorem compile_of_parse_error {e : SyntaxError} (h : Regex.parse pattern alphabet = .error e) :
    compile pattern alphabet limits = .error (.malformed e) := by
  unfold compile Compiled.ofPattern
  rw [h]
  rfl

/-- If comparing two patterns succeeds without budgets as soon as both can be read, its errors are
those of a pattern or of a budget. -/
theorem arises_of_compared {α : Type} (judge : Limits → Dfa → Dfa → Except Error α)
    (hagrees : Except.Agrees limits.Exhausted
      (do judge limits (← compile a alphabet limits) (← compile b alphabet limits))
      (do judge {} (← compile a alphabet {}) (← compile b alphabet {})))
    (hok : ∀ left right, Regex.parse a alphabet = .ok left → Regex.parse b alphabet = .ok right →
      ∃ v, (do judge {} (← compile a alphabet {}) (← compile b alphabet {})) = .ok v)
    (h : (do judge limits (← compile a alphabet limits) (← compile b alphabet limits)) =
      .error e) : e.Arises := by
  have hlocated : ∀ {pattern e'}, Regex.parse pattern alphabet = .error e' →
      (Error.malformed e').Arises := by
    intro pattern e' he'
    have hpinpoints := SyntaxError.pinpoints_of_parse he'
    exact hpinpoints.lt_length.trans_eq (congrArg _ hpinpoints.pattern_eq.symm)
  obtain heq | ⟨e', ⟨stage, limit, hlimit, rfl⟩, he'⟩ := hagrees
  · -- Without budgets only the patterns can be at fault, the first before the second.
    rw [heq] at h
    cases hleft : Regex.parse a alphabet with
    | error e' =>
        rw [compile_of_parse_error hleft] at h
        obtain rfl := Except.error.inj h
        exact hlocated hleft
    | ok left =>
        cases hright : Regex.parse b alphabet with
        | error e' =>
            obtain ⟨d, hd, -⟩ := exists_compile hleft (show Limits.dfaStates {} = none from rfl)
            rw [hd, compile_of_parse_error hright] at h
            obtain rfl := Except.error.inj h
            exact hlocated hright
        | ok right =>
            obtain ⟨v, hv⟩ := hok left right hleft hright
            rw [hv] at h
            cases h
  · rw [he'] at h
    obtain rfl := Except.error.inj h
    trivial

theorem arises_of_equivalence (h : equivalence a b alphabet limits = .error e) : e.Arises := by
  refine arises_of_compared (fun limits left right => left.verdict right limits)
    (equivalence_agrees limits.le_unlimited a b alphabet) (fun left right hleft hright => ?_) h
  obtain ⟨v, hv, -⟩ := exists_equivalence hleft hright
  exact ⟨v, hv⟩

theorem arises_of_inclusion (h : inclusion a b alphabet limits = .error e) : e.Arises := by
  refine arises_of_compared (fun limits left right => left.inclusionWitness right limits)
    (inclusion_agrees limits.le_unlimited a b alphabet) (fun left right hleft hright => ?_) h
  obtain ⟨answer, hanswer, -⟩ := exists_inclusion hleft hright
  exact ⟨answer, hanswer⟩

theorem arises_of_ofPatterns {patterns : List (List Char)} {e : SyntaxError}
    (h : Alphabet.ofPatterns patterns = .error e) : (Error.malformed e).Arises := by
  obtain ⟨before, pattern, after, fault, -, -, hfault, rfl⟩ :=
    Alphabet.ofPatterns_eq_error_iff.1 h
  exact (Token.culprit_of_scan .empty hfault).lt_length

end

theorem Request.arises_of_answerOver {request : Request} {alphabet : Alphabet} {e : Error}
    (h : request.answerOver alphabet = .error e) : e.Arises := by
  unfold answerOver at h
  split at h
  · exact arises_of_inclusion (Except.map_eq_error_iff.1 h)
  · exact arises_of_equivalence (Except.map_eq_error_iff.1 h)

/-- An error of the library is that of a pattern or of a budget. -/
theorem Request.arises_of_answer {request : Request} {e : Error}
    (h : request.answer = .error e) : e.Arises := by
  unfold answer at h
  split at h
  · exact arises_of_answerOver h
  · cases hpatterns : Alphabet.ofPatterns [request.left, request.right] with
    | error e' =>
        rw [hpatterns] at h
        obtain rfl := Except.error.inj h
        exact arises_of_ofPatterns hpatterns
    | ok alphabet =>
        rw [hpatterns] at h
        exact arises_of_answerOver h

/-! ## Drawings -/

section

variable {m : Type → Type} [Monad m]

/-- An action that never fails: effects, and nothing else. -/
def Succeeds (action : ExceptT (List Char) m Unit) : Prop :=
  ∃ effects : m Unit, action = ExceptT.lift effects

/-- The file system makes a directory and writes drawings into it without failing. -/
structure FileSystem.Accepts (files : FileSystem m) (directory : List Char)
    (drawings : List DrawingFile) : Prop where
  makes : Succeeds (files.makeDirectory directory)
  writes : ∀ file ∈ drawings, Succeeds (files.write directory file)

variable [LawfulMonad m]

theorem succeeds_pure : Succeeds (pure () : ExceptT (List Char) m Unit) := by
  refine ⟨pure (), ?_⟩
  simp

theorem Succeeds.bind {first second : ExceptT (List Char) m Unit} (h : Succeeds first)
    (h' : Succeeds second) : Succeeds (first >>= fun _ => second) := by
  obtain ⟨effects, rfl⟩ := h
  obtain ⟨more, rfl⟩ := h'
  exact ⟨effects >>= fun _ => more, (monadLift_bind effects fun _ => more).symm⟩

/-- Writing files that can all be written succeeds. -/
theorem succeeds_forM {write : DrawingFile → ExceptT (List Char) m Unit}
    {drawings : List DrawingFile} (h : ∀ file ∈ drawings, Succeeds (write file)) :
    Succeeds (drawings.forM write) := by
  induction drawings with
  | nil => exact succeeds_pure
  | cons file drawings ih =>
      obtain ⟨hfile, hdrawings⟩ := List.forall_mem_cons.1 h
      exact hfile.bind (ih hdrawings)

/-- A file system that accepts drawings saves them without failing. -/
theorem FileSystem.Accepts.save {files : FileSystem m} {directory : List Char}
    {drawings : List DrawingFile} (h : files.Accepts directory drawings) :
    Succeeds (files.save directory drawings) := by
  unfold FileSystem.save
  split
  · exact succeeds_forM h.writes
  · exact h.makes.bind (succeeds_forM h.writes)

end

/-! ## Lines -/

/-- `FirstLine line text rest` says that a text starts with a line, behind whose end the rest
follows. A text that is not ended is a line with nothing behind it. -/
inductive FirstLine (line : List Char) : List Char → List Char → Prop where
  | last : FirstLine line line []
  | newline (rest : List Char) : FirstLine line (line ++ '\n' :: rest) rest
  | carriageReturn (rest : List Char) : FirstLine line (line ++ '\r' :: '\n' :: rest) rest

/-- The first line of a text is the line that was put there, if this has no line end in it and does
not end in half of one. -/
theorem FirstLine.splitLine_eq {line text rest : List Char} (h : FirstLine line text rest)
    (hnewline : '\n' ∉ line) (hreturn : line.getLast? ≠ some '\r') :
    splitLine text = (line, rest) := by
  have hline : ∀ c ∈ line, (decide (c ≠ '\n')) = true := fun c hc =>
    decide_eq_true fun heq => hnewline (heq ▸ hc)
  cases h with
  | last =>
      rw [splitLine, List.takeWhile_eq_self_iff.2 hline, List.dropWhile_eq_nil_iff.2 hline]
  | newline rest =>
      rw [splitLine, List.takeWhile_append_of_pos hline, List.dropWhile_append_of_pos hline]
      simp [hreturn]
  | carriageReturn rest =>
      have hended : ∀ c ∈ line ++ ['\r'], (decide (c ≠ '\n')) = true := by
        simpa [or_imp, forall_and] using hline
      rw [splitLine, List.append_cons, List.takeWhile_append_of_pos hended,
        List.dropWhile_append_of_pos hended]
      simp

/-! ## Serving -/

/-- The request of some options about two patterns. -/
def Options.request (o : Options) (left right : List Char) : Request :=
  ⟨left, right, o.alphabet, o.subset, o.limits⟩

/-- Two lines make the request that they make as operands. -/
theorem Options.request?_of_lines {o : Options} (hoperands : o.operands = [])
    {left right text rest more : List Char} (hleft : splitLine text = (left, rest))
    (hright : splitLine rest = (right, more)) :
    o.request? text = some (o.request left right) := by
  simp only [request?, hoperands, hleft, hright, request]

section

variable {m : Type → Type} [Monad m] {files : FileSystem m} {colours : Bool} {o : Options}
  {input : List Char} {request : Request}

/-- Serving hangs on the request and on the directory for drawings. -/
theorem serve_congr {o' : Options} {input' : List Char} (h : o.request? input = o'.request? input')
    (hdrawings : o.drawings = o'.drawings) :
    serve files colours o input = serve files colours o' input' := by
  simp only [serve, h, hdrawings]

/-- Without a directory for drawings, serving is reporting what the library answers. -/
theorem serve_of_no_drawings (h : o.request? input = some request) (hdrawings : o.drawings = none) :
    serve files colours o input = pure (.ofOutcome colours request.answer) := by
  simp only [serve, h, hdrawings, Request.outcome_run]

/-- With a directory that the drawings can be written into, the same is reported once they are. -/
theorem serve_of_accepts [LawfulMonad m] {directory : List Char}
    (h : o.request? input = some request) (hdrawings : o.drawings = some directory)
    (haccepts : files.Accepts directory request.run.drawings) :
    ∃ effects : m Unit, files.save directory request.run.drawings = ExceptT.lift effects ∧
      serve files colours o input =
        (fun _ => .ofOutcome colours request.answer) <$> effects := by
  obtain ⟨effects, heffects⟩ := haccepts.save
  refine ⟨effects, heffects, ?_⟩
  simp only [serve, h, hdrawings, Request.outcome_run, heffects]
  simp

end

/-- The report of two patterns tells what the library answers, and no other answer. It stays the
same behind drawings that are asked for and can be written, and when the patterns come as the first
two lines of the input. -/
theorem serve_agrees {m : Type → Type} [Monad m] [LawfulMonad m] (files : FileSystem m)
    (colours : Bool) (o : Options) (left right : List Char) : ∃ report : Report,
      report.Tells colours (o.request left right).answer ∧
      (∀ other, report.Tells colours other → other = (o.request left right).answer) ∧
      (∀ input, serve files colours { o with operands := [left, right], drawings := none } input =
        pure report) ∧
      (∀ directory, files.Accepts directory (o.request left right).run.drawings →
        ∀ input, ∃ effects : m Unit,
          files.save directory (o.request left right).run.drawings = ExceptT.lift effects ∧
          serve files colours
              { o with operands := [left, right], drawings := some directory } input =
            (fun _ => report) <$> effects) ∧
      ∀ text rest more, FirstLine left text rest → FirstLine right rest more →
        '\n' ∉ left → '\n' ∉ right → left.getLast? ≠ some '\r' → right.getLast? ≠ some '\r' →
        ∀ drawings input, serve files colours { o with operands := [], drawings } text =
          serve files colours { o with operands := [left, right], drawings } input := by
  have htells : Report.Tells colours (o.request left right).answer
      (.ofOutcome colours (o.request left right).answer) :=
    Report.tells_ofOutcome fun _ => Request.arises_of_answer
  refine ⟨_, htells, fun other hother => hother.unique htells, ?_, ?_, ?_⟩
  · exact fun input => serve_of_no_drawings rfl rfl
  · exact fun directory haccepts input => serve_of_accepts rfl rfl haccepts
  · intro text rest more hleft hright hleftLine hrightLine hleftEnd hrightEnd drawings input
    have hlines := hleft.splitLine_eq hleftLine hleftEnd
    have hlines' := hright.splitLine_eq hrightLine hrightEnd
    exact serve_congr (Options.request?_of_lines rfl hlines hlines') rfl

/-- A file system that only keeps the names of what was written. -/
def FileSystem.listing : FileSystem (StateM (List (List Char))) where
  makeDirectory directory := ExceptT.lift (modify (directory :: ·))
  write directory file := ExceptT.lift (modify ((directory ++ '/' :: file.name) :: ·))

/-- Two patterns are drawn and told apart by a word of the second, which come from lines with ends
of both kinds. Of two patterns that come as operands, the second cannot be read. -/
theorem serve_agrees_lines_drawn :
    (∃ effects : StateM (List (List Char)) Unit,
      serve FileSystem.listing false { drawings := some "out".toList }
          ("a*b*".toList ++ '\n' :: ("[ab]*".toList ++ ['\r', '\n'])) =
        (fun _ => ⟨1, "not equivalent: \"ba\" is accepted only by B\n".toList, []⟩) <$> effects) ∧
    serve FileSystem.listing true { operands := ["a".toList, "b)c".toList] } [] =
      pure ⟨2, [], ("\x1b[1;31merror\x1b[0m: syntax error at position 1 in \"b)c\": " ++
        "unexpected ')'\n  b\x1b[31m)\x1b[0mc\n").toList⟩ := by
  constructor
  · have hanswer : (Options.request {} "a*b*".toList "[ab]*".toList).answer =
        .ok (.equivalence (.different ['b', 'a'] .right)) := by decide +kernel
    obtain ⟨⟨code, output, errors⟩, htells, -, -, hdrawn, hlines⟩ :=
      serve_agrees FileSystem.listing false {} "a*b*".toList "[ab]*".toList
    rw [hanswer] at htells
    obtain rfl : code = 1 := htells.separated_iff.2 (.inl ⟨_, _, rfl⟩)
    obtain ⟨rfl, rfl⟩ : output = "not equivalent: \"ba\" is accepted only by B\n".toList ∧
        errors = [] := by
      cases htells.prints with
      | rightOnly w => exact ⟨by decide +kernel, rfl⟩
    rw [hlines _ _ [] (.newline _) (.carriageReturn []) (by decide) (by decide) (by decide)
      (by decide) _ []]
    obtain ⟨effects, -, hserve⟩ := hdrawn "out".toList ⟨⟨_, rfl⟩, fun _ _ => ⟨_, rfl⟩⟩ []
    exact ⟨effects, hserve⟩
  · have hanswer : (Options.request {} "a".toList "b)c".toList).answer =
        .error (.malformed ⟨⟨1, .unopenedGroup⟩, "b)c".toList⟩) := by decide +kernel
    have hserve : serve FileSystem.listing true { operands := ["a".toList, "b)c".toList] } [] =
        pure (.ofOutcome true (Options.request {} "a".toList "b)c".toList).answer) :=
      serve_of_no_drawings rfl rfl
    rw [hserve, hanswer]
    exact congrArg pure (by decide +kernel)

end RegexEquiv.CommandLine
