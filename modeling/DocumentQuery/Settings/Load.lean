import DocumentQuery.Settings.Basic
import DocumentQuery.Settings.Environment
import DocumentQuery.Yaml.Reader

/-!
# Loading settings

Settings come from a file, and variables of the environment take precedence over
it. The settings of logging are handed on in the environment, which ends the program if
a setting can be no value of a variable.

Main definitions:

* `SettingsError`
* `Settings.ofYaml?` — the settings that a document gives
* `Settings.override` — settings with what the environment gives in place of them
* `Settings.load`
* `Settings.exportLogging` — the environment with the settings of logging, if it can hold
  them
* `LogFormat.ofEnvironment`, `LogOutput.ofEnvironment`
-/

namespace DocumentQuery

inductive SettingsError where
  | unreadable (reason : String)
  | malformed
  | invalidVariable (name value : String)
deriving DecidableEq, Repr

def SettingsError.message : SettingsError → String
  | .unreadable reason => s!"Failed to read config file: {reason}"
  | .malformed => "Failed to parse YAML: the document gives no settings"
  | .invalidVariable name value => s!"Invalid value for environment variable {name}: {value}"

/-! ## Settings in a file -/

def GeneratorOptions.ofNode? (d : Yaml.Document) (node : Yaml) : Option GeneratorOptions := do
  let members ← d.members? node
  let default : GeneratorOptions := {}
  some { indentSize := ← Yaml.field members "indent_size" d.natural? default.indentSize }

def LogSettings.ofNode? (d : Yaml.Document) (node : Yaml) : Option LogSettings := do
  let members ← d.members? node
  let default : LogSettings := {}
  some {
    level := ← Yaml.field members "level" d.text? default.level
    format := ← Yaml.field members "format" d.text? default.format
    output := ← Yaml.field members "output" d.text? default.output
    directory := ← Yaml.field members "directory" d.text? default.directory }

/-- The settings that a document gives. What it does not mention has its default,
and what it mentions beyond the settings is ignored. -/
def Settings.ofYaml? (d : Yaml.Document) : Option Settings := do
  let members ← d.members? d.root
  some {
    generator := ← Yaml.field members "generator" (GeneratorOptions.ofNode? d) {}
    logging := ← Yaml.field members "logging" (LogSettings.ofNode? d) {} }

/-! ## Settings in the environment -/

namespace Environment

def indentSizeName : String := "COSQL_INDENT_SIZE"

def logLevelName : String := "RUST_LOG"

def logFormatName : String := "LOG_FORMAT"

def logOutputName : String := "LOG_OUTPUT"

def logDirectoryName : String := "LOG_DIR"

end Environment

open Environment

/-- A natural number below 2^64 in decimal digits, with a plus sign or without. -/
def indentSizeOf? (value : String) : Option Nat :=
  match value.toList with
  | '+' :: digits => Digits.word? digits
  | digits => Digits.word? digits

/-- Each variable takes the place of one setting if it has a text. -/
def LogSettings.override (s : LogSettings) (env : Environment) : LogSettings where
  level := (env.text? logLevelName).getD s.level
  format := (env.text? logFormatName).getD s.format
  output := (env.text? logOutputName).getD s.output
  directory := (env.text? logDirectoryName).getD s.directory

def GeneratorOptions.override (o : GeneratorOptions) (env : Environment) :
    Except SettingsError GeneratorOptions :=
  match env.text? indentSizeName with
  | none => .ok o
  | some value =>
    match indentSizeOf? value with
    | some indentSize => .ok { o with indentSize }
    | none => .error (.invalidVariable indentSizeName value)

namespace Settings

/-- Settings with what the environment gives in place of them. -/
def override (s : Settings) (env : Environment) : Except SettingsError Settings := do
  let generator ← s.generator.override env
  return { generator, logging := s.logging.override env }

/-- The settings of a file. -/
def ofFile (contents : Except String String) : Except SettingsError Settings :=
  match contents with
  | .error reason => .error (.unreadable reason)
  | .ok text =>
    match (Yaml.Document.ofText? text).bind ofYaml? with
    | some s => .ok s
    | none => .error .malformed

/-- The settings that hold, given the contents of the file if one is named. -/
def load (file : Option (Except String String)) (env : Environment) :
    Except SettingsError Settings := do
  let s ← match file with
    | some contents => ofFile contents
    | none => .ok {}
  s.override env

/-- The environment with the settings of logging. The first one that no variable can hold
ends the program. -/
def exportLogging (s : Settings) (env : Environment) : Except Unsettable Environment := do
  let env ← env.set logLevelName s.logging.level
  let env ← env.set logFormatName s.logging.format
  let env ← env.set logOutputName s.logging.output
  env.set logDirectoryName s.logging.directory

end Settings

/-- The format of log lines that the environment asks for. -/
def LogFormat.ofEnvironment (env : Environment) : LogFormat :=
  LogFormat.ofText ((env.text? logFormatName).getD ({} : LogSettings).format)

/-- Where the environment asks log lines to go. -/
def LogOutput.ofEnvironment (env : Environment) : LogOutput :=
  LogOutput.ofText ((env.text? logOutputName).getD ({} : LogSettings).output)

end DocumentQuery
