import DocumentQuery.CommandLine.Invocation
import DocumentQuery.Document.Reader
import DocumentQuery.Document.Writer
import DocumentQuery.Query.Lowering
import DocumentQuery.Settings.Load
import DocumentQuery.Settings.VariableFile

/-!
# Running the program

A run reads the settings and hands those of logging on, then reads the documents that
the command names, and prints a query or a fingerprint. What it can see of the machine is
handed to it. Log lines are no part of what it leaves behind.

Main definitions:

* `Surroundings`, `Outcome`
* `Failure` — why a command gives no result
* `Invocation.run`
* `runProgram` — a run from the words of the command line to its outcome
-/

namespace DocumentQuery

/-- What a run can see of the machine. -/
structure Surroundings where
  environment : Environment
  /-- The text of a file with further variables. -/
  variableFile : Option String := none
  /-- The contents of the file at a path, or why it cannot be read. -/
  files : SystemText → Except String String

namespace Surroundings

def settingsName : String := "COSQL_CONFIG"

/-- The variables that a run looks at. -/
def variableNames : List String :=
  [settingsName, Environment.indentSizeName, Environment.logLevelName, Environment.logFormatName,
    Environment.logOutputName, Environment.logDirectoryName]

/-- The environment together with the file of further variables. -/
def fullEnvironment (s : Surroundings) : Except Unsettable Environment :=
  s.environment.withFile s.variableFile

end Surroundings

/-- What a run leaves behind. -/
structure Outcome where
  exitCode : UInt8 := 0
  output : String := ""
  errors : String := ""
deriving DecidableEq, Inhabited, Repr

/-! ## Failures -/

inductive Failure where
  | settings (path : Option SystemText) (e : SettingsError)
  | unreadableSelect (path reason : String)
  | invalidSelect (path : String) (e : DocumentError)
  | unreadableValues (path reason : String)
  | invalidValues (path : String) (e : DocumentError)
  | query (e : QueryError)
  | unsettable (u : Unsettable)
deriving DecidableEq, Repr

namespace Failure

/-- What went wrong, the cause last. -/
def message : Failure → String
  | .settings none e => s!"error: {e.message}"
  | .settings (some path) e => s!"error: Failed to load config {path.shown}: {e.message}"
  | .unreadableSelect path reason => s!"error: Failed to read IR document {path}: {reason}"
  | .invalidSelect path e => s!"error: Invalid IR document {path}: {e.message}"
  | .unreadableValues path reason => s!"error: Failed to read parameter values {path}: {reason}"
  | .invalidValues path e => s!"error: Invalid parameter values {path}: {e.message}"
  | .query (.user e) => s!"query error: {e.message}"
  | .query (.internal e) => s!"internal error: {(QueryError.internal e).message}"
  | .unsettable u => u.message

/-- Two if the tree of the query breaks a rule, that of a program that broke off if a
variable cannot be set, and one otherwise. -/
def exitCode : Failure → UInt8
  | .query (.internal _) => 2
  | .unsettable _ => 101
  | _ => 1

def outcome (f : Failure) : Outcome := { exitCode := f.exitCode, errors := f.message ++ "\n" }

end Failure

/-! ## Commands -/

def readSelect (s : Surroundings) (path : String) : Except Failure Select := do
  let text ← (s.files (.unicode path)).mapError (Failure.unreadableSelect path)
  (Select.ofText text).mapError (Failure.invalidSelect path)

/-- Without a path no parameter has a value. -/
def readValues (s : Surroundings) : Option String → Except Failure ParameterValues
  | none => .ok []
  | some path => do
    let text ← (s.files (.unicode path)).mapError (Failure.unreadableValues path)
    (valuesOfText text).mapError (Failure.invalidValues path)

def OutputFormat.render : OutputFormat → Query → String
  | .text, q => q.display
  | .json, q => q.toJson.pretty

/-- The files that an invocation names. -/
def Invocation.paths (i : Invocation) : List SystemText :=
  i.settings.toList ++
    match i.command with
    | .generate query parameters _ => .unicode query :: parameters.toList.map .unicode
    | .fingerprint query => [.unicode query]

/-- What a command prints. -/
def Command.run (s : Surroundings) (settings : Settings) : Command → Except Failure String
  | .generate query parameters format => do
    let select ← readSelect s query
    let values ← readValues s parameters
    let q ← (select.generate .builtin values settings.generator).mapError Failure.query
    return format.render q
  | .fingerprint query => do
    let select ← readSelect s query
    return select.fingerprint

/-- What an invocation prints in an environment. The settings are loaded whatever the
command, and those of logging are handed on before it begins. -/
def Invocation.run (s : Surroundings) (env : Environment) (i : Invocation) :
    Except Failure String := do
  let settings ← (Settings.load (i.settings.map s.files) env).mapError
    (Failure.settings i.settings)
  let _ ← (settings.exportLogging env).mapError Failure.unsettable
  i.command.run s settings

/-! ## The program -/

def versionText : String := "cosql 0.1.0"

def helpText : String :=
  "Usage: cosql [--config FILE] generate --query FILE [--parameters FILE] [--format text|json]\n" ++
  "       cosql [--config FILE] fingerprint --query FILE"

/-- The files that a run with these words looks at. -/
def pathsOf (words : List String) (s : Surroundings) : List SystemText :=
  match s.fullEnvironment with
  | .error _ => []
  | .ok env =>
    match Request.ofWords words (env Surroundings.settingsName) with
    | .ok (.run invocation) => invocation.paths
    | _ => []

/-- A run of the program with the words of a command line. The file of further variables
is read before the words are. -/
def runProgram (words : List String) (s : Surroundings) : Outcome :=
  match s.fullEnvironment with
  | .error u => (Failure.unsettable u).outcome
  | .ok env =>
    match Request.ofWords words (env Surroundings.settingsName) with
    | .error e => { exitCode := 2, errors := s!"error: {e.message}\n" }
    | .ok .version => { output := versionText ++ "\n" }
    | .ok .help => { output := helpText ++ "\n" }
    | .ok (.run invocation) =>
      match invocation.run s env with
      | .ok text => { output := text ++ "\n" }
      | .error f => f.outcome

end DocumentQuery
