import DocumentQuery.CommandLine.Run

/-!
# The program

Gathers what a run looks at, runs, and prints the outcome.
-/

namespace DocumentQuery

/-- The contents of a file, or why it cannot be read. Only paths that are texts are looked
up. -/
def readContents : SystemText → IO (Except String String)
  | .unicode path => do
    try
      return .ok (← IO.FS.readFile path)
    catch e =>
      return .error (toString e)
  | .other _ => return .error "no such file"

/-- The nearest file of variables, in the working directory or at most `levels`
directories above it. -/
def findVariableFile (directory : String) : Nat → IO (Option String)
  | 0 => return none
  | levels + 1 => do
    match ← readContents (.unicode (directory ++ ".env")) with
    | .ok text => return some text
    | .error _ => findVariableFile (directory ++ "../") levels

/-- What a run with these words looks at. -/
def surroundingsOf (words : List String) : IO Surroundings := do
  let variableFile ← findVariableFile "" 64
  let names := Surroundings.variableNames ++ VariableFile.mentionedNames (variableFile.getD "")
  let entries ← names.filterMapM fun name => do
    return (← IO.getEnv name).map fun value => (name, value)
  let bare : Surroundings :=
    { environment := .ofList entries, variableFile
      files := fun _ => .error "no such file" }
  let contents ← (pathsOf words bare).mapM fun path => return (path, ← readContents path)
  return { bare with files := fun path => (contents.lookup path).getD (bare.files path) }

end DocumentQuery

def main (words : List String) : IO UInt32 := do
  let outcome := DocumentQuery.runProgram words (← DocumentQuery.surroundingsOf words)
  IO.print outcome.output
  IO.eprint outcome.errors
  return outcome.exitCode.toUInt32
