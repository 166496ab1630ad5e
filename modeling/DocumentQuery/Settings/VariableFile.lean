import DocumentQuery.Settings.Environment

/-!
# Files of variables

A file of `KEY=VALUE` lines gives values to variables that have no text. The word
`export` may stand before a key. A value may stand in quotes, and then go on over
several lines. Outside single quotes, `$NAME` and `${NAME}` stand for the value of
a variable. A line may end with a comment.

Main definitions:

* `VariableFile.entries` — the entries of a text, as far as quotes tell
* `VariableFile.readValue` — a value as written
* `VariableFile.readEntry`
* `VariableFile.mentionedNames` — the variables that a text may refer to
* `Environment.withFile` — an environment together with a file, unless the file gives a
  value that no variable can have
-/

namespace DocumentQuery.VariableFile

/-- White space in all scripts. -/
def isSpace (c : Char) : Bool :=
  ('\t' ≤ c && c ≤ '\r') || c == ' ' || c == '\u0085' || c == '\u00a0' || c == '\u1680' ||
    ('\u2000' ≤ c && c ≤ '\u200a') || c == '\u2028' || c == '\u2029' || c == '\u202f' ||
    c == '\u205f' || c == '\u3000'

def skipSpace (cs : List Char) : List Char := cs.dropWhile isSpace

def trimEnd (cs : List Char) : List Char := (cs.reverse.dropWhile isSpace).reverse

/-! ## Where an entry ends -/

/-- What the characters of an entry up to some place leave open. -/
inductive Openness where
  | closed
  /-- A space has just been passed, behind which a comment may begin. -/
  | spaced
  | escaped
  | single
  | singleEscaped
  | double
  | doubleEscaped
deriving DecidableEq, Repr

/-- What a character outside quotes leaves open. -/
def Openness.outside : Char → Openness
  | '\\' => .escaped
  | '"' => .double
  | '\'' => .single
  | _ => .closed

/-- What a further character leaves open. -/
def Openness.next : Openness → Char → Openness
  | .closed, c => if isSpace c && c != '\n' && c != '\r' then .spaced else .outside c
  | .spaced, c => .outside c
  | .escaped, _ => .closed
  | .single, '\\' => .singleEscaped
  | .single, '\'' => .closed
  | .single, _ => .single
  | .singleEscaped, _ => .single
  | .double, '\\' => .doubleEscaped
  | .double, '"' => .closed
  | .double, _ => .double
  | .doubleEscaped, _ => .double

/-- The rest of an entry and the text after it. An entry ends with a line that leaves
nothing open. A text that ends elsewhere gives none. -/
def splitEntry : Openness → List Char → Option (List Char × List Char)
  | .closed, [] => some ([], [])
  | _, [] => none
  | state, c :: cs =>
    if state = .spaced ∧ c = '#' then some ([], (cs.dropWhile (· != '\n')).drop 1)
    else if c = '\n' ∧ state.next c = .closed then some ([], cs)
    else (splitEntry (state.next c) cs).map fun (entry, rest) => (c :: entry, rest)

/-- The entries of a text, up to one that does not end. Lines that begin with a
number sign are passed over. The first number bounds the lines. -/
def entriesFrom : Nat → List Char → List (List Char)
  | 0, _ => []
  | _, [] => []
  | steps + 1, cs =>
    if (skipSpace (cs.takeWhile (· != '\n'))).head? = some '#' then
      entriesFrom steps ((cs.dropWhile (· != '\n')).drop 1)
    else
      match splitEntry .closed cs with
      | some (entry, rest) => entry :: entriesFrom steps rest
      | none => []

/-- The entries of a text, which may begin with a byte order mark. -/
def entries (text : String) : List (List Char) :=
  let cs := match text.toList with
    | '\ufeff' :: cs => cs
    | cs => cs
  entriesFrom cs.length cs

/-- Names that stand in a text, and words that may be such names. -/
def mentionedNames (text : String) : List String :=
  ((text.map fun c => if c.isAlphanum || c == '_' then c else ' ').splitOn " ").filter (· ≠ "")

/-! ## Values -/

/-- What a reverse solidus in front of `c` stands for. -/
def escaped? : Char → Option Char
  | 'n' => some '\n'
  | '\\' => some '\\'
  | '\'' => some '\''
  | '"' => some '"'
  | '$' => some '$'
  | ' ' => some ' '
  | _ => none

/-- Where a character of a value stands. `quoted` tells whether double quotes are
open. -/
inductive Place where
  | text (quoted : Bool)
  | escape (quoted : Bool)
  | single
  /-- In the name of a variable, of which `name` has been read. -/
  | variable (quoted : Bool) (name : List Char)
  /-- In a name between braces. -/
  | braced (quoted : Bool) (name : List Char)
  /-- Behind the value, where only a comment may follow. -/
  | behind
deriving DecidableEq, Repr

/-- The text of a variable, empty if it has none. -/
def valueOf (env : Environment) (name : List Char) : List Char :=
  ((env.text? (String.ofList name)).getD "").toList

/-- A value, read from some place on. It ends at the first blank outside quotes. A
character that ends the name of a variable is taken as it is. -/
def readValue (env : Environment) : Place → List Char → Option (List Char)
  | .text false, [] | .escape false, [] | .behind, [] => some []
  | .variable false name, [] => some (valueOf env name)
  | _, [] => none
  | .behind, c :: cs =>
    if c = ' ' ∨ c = '\t' then readValue env .behind cs
    else if c = '#' then some []
    else none
  | .escape quoted, c :: cs => do
    let c ← escaped? c
    let value ← readValue env (.text quoted) cs
    some (c :: value)
  | .single, c :: cs =>
    if c = '\'' then readValue env (.text false) cs
    else (readValue env .single cs).map (c :: ·)
  | .variable quoted name, c :: cs =>
    if c.isAlphanum then readValue env (.variable quoted (name ++ [c])) cs
    else if c = '{' ∧ name = [] then readValue env (.braced quoted []) cs
    else if c = '$' then (readValue env (.variable quoted []) cs).map (valueOf env name ++ ·)
    else (readValue env (.text quoted) cs).map (valueOf env name ++ c :: ·)
  | .braced quoted name, c :: cs =>
    if c = '}' then (readValue env (.text quoted) cs).map (valueOf env name ++ ·)
    else readValue env (.braced quoted (name ++ [c])) cs
  | .text quoted, c :: cs =>
    if c = '$' then readValue env (.variable quoted []) cs
    else if c = '"' then readValue env (.text !quoted) cs
    else if c = '\\' then readValue env (.escape quoted) cs
    else if !quoted && c == '\'' then readValue env .single cs
    else if !quoted && (c == ' ' || c == '\t') then readValue env .behind cs
    else (readValue env (.text quoted) cs).map (c :: ·)

/-! ## Entries -/

def isKeyStart (c : Char) : Bool := c.isAlpha || c == '_'

def isKeyChar (c : Char) : Bool := c.isAlphanum || c == '_' || c == '.'

/-- A key, and what follows it. -/
def readKey (cs : List Char) : Option (String × List Char) :=
  if cs.head?.any isKeyStart then
    some (String.ofList (cs.takeWhile isKeyChar), skipSpace (cs.dropWhile isKeyChar))
  else none

/-- A key with its value. `export` is a key itself if an equals sign follows it. -/
def readEntry (env : Environment) (cs : List Char) : Option (String × String) := do
  let (key, rest) ← readKey cs
  let (key, rest) ←
    match key, rest with
    | "export", '=' :: _ => some (key, rest)
    | "export", rest => readKey rest
    | _, _ => some (key, rest)
  match rest with
  | '=' :: cs =>
    match skipSpace cs with
    | '#' :: _ => some (key, "")
    | cs => some (key, String.ofList (← readValue env (.text false) cs))
  | _ => none

/-- The environment with the values of entries up to the first one that is none. -/
def provideAll (env : Environment) : List (List Char) → Except Unsettable Environment
  | [] => .ok env
  | entry :: entries =>
    match skipSpace (trimEnd entry) with
    | [] | '#' :: _ => provideAll env entries
    | cs =>
      match readEntry env cs with
      | some (name, value) => do provideAll (← env.provide name value) entries
      | none => .ok env

end DocumentQuery.VariableFile

namespace DocumentQuery

/-- The environment together with the text of a file of variables, if there is one. -/
def Environment.withFile (env : Environment) : Option String → Except Unsettable Environment
  | some text => VariableFile.provideAll env (VariableFile.entries text)
  | none => .ok env

end DocumentQuery
