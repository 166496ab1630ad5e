import DocumentQuery.Settings.Environment

/-!
# Command lines

What the words of a command line ask for. Options may stand in any order, with
their values behind an equals sign or as the next word. The settings file may be
named before the command, behind it, or by the environment; what is named last
counts, and the environment only if nothing is named.

Main definitions:

* `Invocation`, `Command`, `OutputFormat`
* `Request` — an invocation, or a question about the program
* `UsageError`
* `Request.ofWords` — what a command line asks for
-/

namespace DocumentQuery

inductive OutputFormat where
  /-- The query for a reader. -/
  | text
  | json
deriving DecidableEq, Inhabited, Repr

def OutputFormat.named? : String → Option OutputFormat
  | "text" => some .text
  | "json" => some .json
  | _ => none

inductive Command where
  | generate (query : String) (parameters : Option String) (format : OutputFormat)
  | fingerprint (query : String)
deriving DecidableEq, Inhabited, Repr

structure Invocation where
  /-- The path of the settings file. -/
  settings : Option SystemText
  command : Command
deriving DecidableEq, Inhabited, Repr

inductive Request where
  | version
  | help
  | run (invocation : Invocation)
deriving DecidableEq, Inhabited, Repr

inductive UsageError where
  | missingCommand
  | unknownCommand (word : String)
  | unexpectedWord (word : String)
  | missingValue (option : String)
  | repeatedOption (option : String)
  | missingOption (option : String)
  | invalidFormat (value : String)
deriving DecidableEq, Repr

def UsageError.message : UsageError → String
  | .missingCommand => "a command is required: generate or fingerprint"
  | .unknownCommand word => s!"unknown command '{word}'"
  | .unexpectedWord word => s!"unexpected argument '{word}'"
  | .missingValue option => s!"a value is required for '--{option}'"
  | .repeatedOption option => s!"'--{option}' is given more than once"
  | .missingOption option => s!"'--{option}' is required"
  | .invalidFormat value => s!"invalid format '{value}': text or json"

/-! ## Words -/

/-- A word of the command line. -/
inductive Word where
  /-- Two hyphens and a name; a value may follow behind an equals sign. -/
  | long (name : String) (value : Option String)
  /-- A hyphen and letters. -/
  | short (first : Char)
  /-- Two hyphens: no options follow. -/
  | separator
  | plain
deriving DecidableEq, Repr

def Word.ofChars : List Char → Word
  | ['-', '-'] => .separator
  | '-' :: '-' :: cs =>
    let name := cs.takeWhile (· != '=')
    match cs.dropWhile (· != '=') with
    | '=' :: value => .long (String.ofList name) (some (String.ofList value))
    | _ => .long (String.ofList name) none
  | '-' :: c :: _ => .short c
  | _ => .plain

def Word.of (word : String) : Word := Word.ofChars word.toList

/-! ## Options -/

/-- The options of one level with their values, and what ended the level. -/
structure Level where
  options : List (String × String)
  /-- The words from the first that is no option. -/
  rest : List String
deriving DecidableEq, Repr

/-- Why the words of a level are not read to their end. -/
inductive Stop where
  | asked (request : Request)
  | misused (e : UsageError)
deriving DecidableEq, Repr

namespace Level

def addOption (options : List (String × String)) (name value : String) :
    Except Stop (List (String × String)) :=
  if value.isEmpty then .error (.misused (.missingValue name))
  else if (options.lookup name).isSome then .error (.misused (.repeatedOption name))
  else .ok (options ++ [(name, value)])

/-- A question about the program. Only the level before the command answers the
one for the version. -/
def question? (first : Bool) : Word → Option Request
  | .long "help" none | .short 'h' => some .help
  | .long "version" none | .short 'V' => if first then some .version else none
  | _ => none

/-- Reads the options of a level that knows the options `known`. -/
def read (first : Bool) (known : List String) (options : List (String × String)) :
    List String → Except Stop Level
  | [] => .ok ⟨options, []⟩
  | word :: rest =>
    match question? first (Word.of word) with
    | some request => .error (.asked request)
    | none =>
      match Word.of word with
      | .plain => .ok ⟨options, word :: rest⟩
      | .separator =>
        match rest with
        | [] => .ok ⟨options, []⟩
        | word :: _ => .error (.misused (.unexpectedWord word))
      | .short _ => .error (.misused (.unexpectedWord word))
      | .long name value =>
        if !known.contains name then .error (.misused (.unexpectedWord word))
        else
          match value, rest with
          | some value, rest => do
            read first known (← addOption options name value) rest
          | none, [] => .error (.misused (.missingValue name))
          | none, value :: rest =>
            if Word.of value = .plain then do
              read first known (← addOption options name value) rest
            else .error (.misused (.missingValue name))

def require (level : Level) (name : String) : Except UsageError String :=
  match level.options.lookup name with
  | some value => .ok value
  | none => .error (.missingOption name)

end Level

/-! ## Commands -/

/-- The options of a command, whatever the settings. -/
def Command.options : String → Option (List String)
  | "generate" => some ["query", "parameters", "format"]
  | "fingerprint" => some ["query"]
  | _ => none

/-- The command that a name and the options behind it make. -/
def Command.ofLevel (name : String) (level : Level) : Except UsageError Command := do
  let query ← level.require "query"
  if name = "fingerprint" then return .fingerprint query
  else
    match level.options.lookup "format" with
    | none => return .generate query (level.options.lookup "parameters") .text
    | some format =>
      match OutputFormat.named? format with
      | some format => return .generate query (level.options.lookup "parameters") format
      | none => .error (.invalidFormat format)

/-! ## Requests -/

namespace Request

/-- The settings file. The environment is asked by each level that does not name
one, and must not name the empty path. -/
def settingsOf (before behind : Level) (fromEnvironment : Option SystemText) :
    Except UsageError (Option SystemText) :=
  let (before, behind) := (before.options.lookup "config", behind.options.lookup "config")
  if fromEnvironment = some (.unicode "") ∧ (before.isNone ∨ behind.isNone) then
    .error (.missingValue "config")
  else .ok (((behind.or before).map .unicode).or fromEnvironment)

/-- Words behind `help` may name one command and nothing else. -/
def readHelp : List String → Except Stop Invocation
  | [] => .error (.asked .help)
  | name :: words =>
    if name ≠ "help" ∧ (Command.options name).isNone then
      .error (.misused (.unknownCommand name))
    else
      match words with
      | [] => .error (.asked .help)
      | word :: _ => .error (.misused (.unexpectedWord word))

/-- The invocation that a command line asks for. -/
def readInvocation (words : List String) (fromEnvironment : Option SystemText) :
    Except Stop Invocation := do
  let before ← Level.read true ["config"] [] words
  match before.rest with
  | [] => .error (.misused .missingCommand)
  | "help" :: words => readHelp words
  | name :: words =>
    match Command.options name with
    | none => .error (.misused (.unknownCommand name))
    | some known => do
      let behind ← Level.read false ("config" :: known) [] words
      match behind.rest with
      | word :: _ => .error (.misused (.unexpectedWord word))
      | [] =>
        let settings ← (settingsOf before behind fromEnvironment).mapError Stop.misused
        let command ← (Command.ofLevel name behind).mapError Stop.misused
        return { settings, command }

/-- What the words of a command line ask for. -/
def ofWords (words : List String) (fromEnvironment : Option SystemText) :
    Except UsageError Request :=
  match readInvocation words fromEnvironment with
  | .ok invocation => .ok (.run invocation)
  | .error (.asked request) => .ok request
  | .error (.misused e) => .error e

end Request

end DocumentQuery
