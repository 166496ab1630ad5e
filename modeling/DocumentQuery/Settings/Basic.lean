import DocumentQuery.Query.Basic

/-!
# Settings

What a user may settle for all queries: how they are written, and how the program
logs.

Main definitions:

* `Settings`, `LogSettings`
* `LogFormat`, `LogOutput` — what the texts of the settings stand for
* `Settings.toJson`
-/

namespace DocumentQuery

/-- How the program logs. The texts are kept as they are given. -/
structure LogSettings where
  level : String := "warn"
  format : String := "compact"
  output : String := "stderr"
  directory : String := "./logs"
deriving DecidableEq, Inhabited, Repr

structure Settings where
  generator : GeneratorOptions := {}
  logging : LogSettings := {}
deriving DecidableEq, Inhabited, Repr

/-! ## Settings as documents -/

def LogSettings.toJson (s : LogSettings) : Json :=
  .obj [("level", .str s.level), ("format", .str s.format), ("output", .str s.output),
    ("directory", .str s.directory)]

def Settings.toJson (s : Settings) : Json :=
  .obj [("generator", s.generator.toJson), ("logging", s.logging.toJson)]

/-! ## Formats and outputs -/

inductive LogFormat where
  | pretty
  | json
  | compact
deriving DecidableEq, Inhabited, Repr

/-- The format that a text stands for; any other text stands for `compact`. -/
def LogFormat.ofText : String → LogFormat
  | "json" => .json
  | "pretty" => .pretty
  | _ => .compact

inductive LogOutput where
  | stderr
  | file
  | both
deriving DecidableEq, Inhabited, Repr

/-- The output that a text stands for; any other text stands for `stderr`. -/
def LogOutput.ofText : String → LogOutput
  | "file" => .file
  | "both" => .both
  | _ => .stderr

end DocumentQuery
