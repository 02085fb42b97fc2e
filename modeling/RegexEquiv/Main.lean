import RegexEquiv.CommandLine.Run

/-!
# The command line

Reads the arguments and, if they name no patterns, the standard input; serves the request on the
file system, where drawings go if they were asked for; prints the report.
-/

open RegexEquiv RegexEquiv.CommandLine

/-- Whether the terminal and the environment ask for colours. -/
def wantsColours : IO Bool := do
  if let some force ← IO.getEnv "CLICOLOR_FORCE" then
    if force != "0" then return true
  if (← IO.getEnv "NO_COLOR").isSome then return false
  if (← IO.getEnv "CLICOLOR") == some "0" then return false
  (← IO.getStdout).isTty

/-- An action on the file system; if it fails, the reason is its wording. -/
def attempt (action : IO Unit) : ExceptT (List Char) IO Unit := .mk do
  try
    action
    return .ok ()
  catch e =>
    return .error (toString e).toList

/-- The file system of the program. -/
def fileSystem : FileSystem IO where
  makeDirectory directory := attempt (IO.FS.createDirAll (String.ofList directory))
  write directory file := attempt
    (IO.FS.writeFile (String.ofList (directory ++ '/' :: file.name)) (.ofList file.content))

/-- Prints a report and gives its exit code. -/
def printReport (report : Report) : IO UInt32 := do
  (← IO.getStdout).putStr (.ofList report.output)
  (← IO.getStderr).putStr (.ofList report.errors)
  return .ofNat report.code

/-- The two lines that hold the patterns. -/
def readPatterns : IO (List Char) := do
  let stdin ← IO.getStdin
  let first ← stdin.getLine
  let second ← stdin.getLine
  return first.toList ++ second.toList

def main (arguments : List String) : IO UInt32 := do
  match Options.ofArguments (arguments.map String.toList) with
  | .error _ => printReport .usage
  | .ok options =>
      let input ← if options.operands.isEmpty then readPatterns else pure []
      printReport (← serve fileSystem (← wantsColours) options input)
