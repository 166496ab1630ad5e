import DocumentQuery.Yaml.Block
import DocumentQuery.Yaml.Plain
import DocumentQuery.Yaml.Quotation
import DocumentQuery.Yaml.Tag

/-!
# Tokens of a YAML text

Block collections are told by columns. Each opens with a token of its own, and
closes when a token stands before its column. That a key has been read shows only
at the colon behind it; so the places where a key may have begun are remembered,
and the tokens of a key are put in front of it afterwards.

Main definitions:

* `Token`
* `Lexer` — the tokens of the text up to some place
* `Lexer.read?` — reads one more token
* `Token.ofChars?` — all tokens of a text
-/

namespace DocumentQuery.Yaml

inductive Token where
  /-- A directive that tells the version. -/
  | version (major minor : Nat)
  /-- A directive that declares a handle. -/
  | handle (handle : String)
  | documentStart
  | documentEnd
  | blockSequenceStart
  | blockMappingStart
  /-- Closes a block collection. -/
  | blockEnd
  | flowSequenceStart
  | flowSequenceEnd
  | flowMappingStart
  | flowMappingEnd
  /-- Begins an item of a block sequence. -/
  | blockEntry
  /-- Ends an item or a member of a flow collection. -/
  | flowEntry
  | key
  | value
  /-- Gives a name to the node behind it. -/
  | anchor (name : String)
  /-- Stands for the node with a name. -/
  | reference (name : String)
  | tag (handle : Option String)
  | scalar (text : String) (isPlain : Bool)
deriving DecidableEq, Inhabited, Repr

/-- A place where a key may have begun. -/
structure KeyPlace where
  /-- The number of tokens before it. -/
  tokens : Nat
  index : Nat
  line : Nat
  column : Nat
  /-- Nothing but a key may stand there. -/
  required : Bool
deriving DecidableEq, Repr

/-- A key stands on one line and is not longer than 1024 characters. -/
def KeyPlace.isOver (k : KeyPlace) (c : Cursor) : Bool :=
  k.line < c.line || k.index + 1024 < c.index

structure Lexer where
  cursor : Cursor
  tokens : Array Token := #[]
  /-- The columns of the open block collections, innermost first. -/
  columns : List Nat := []
  /-- The place where a key may have begun in the innermost collection. -/
  key? : Option KeyPlace := none
  /-- Such places around each of the open flow collections, innermost first. -/
  outerKeys : List (Option KeyPlace) := []
  /-- A key may begin here. -/
  keyAllowed : Bool := true

namespace Lexer

def inFlow (l : Lexer) : Bool := !l.outerKeys.isEmpty

/-- The column that lines belonging to the innermost block collection are indented
behind. -/
def margin (l : Lexer) : Nat := l.columns.head?.elim 0 (· + 1)

def push (l : Lexer) (token : Token) : Lexer := { l with tokens := l.tokens.push token }

/-- Adds a token of so many characters. -/
def pushAs (l : Lexer) (token : Token) (length : Nat) : Lexer :=
  { l with tokens := l.tokens.push token, cursor := l.cursor.skip length }

/-- Puts a token behind the first `n`. -/
def insert (l : Lexer) (n : Nat) (token : Token) : Lexer :=
  { l with tokens := (l.tokens.extract 0 n).push token ++ l.tokens.extract n l.tokens.size }

def allowKey (l : Lexer) (keyAllowed : Bool) : Lexer := { l with keyAllowed }

/-! ## Block collections -/

/-- Opens a block collection at a column, its token behind the first `n`, unless
one is open there. -/
def openBlock (l : Lexer) (token : Token) (column n : Nat) : Lexer :=
  if l.inFlow || l.columns.head?.any (column ≤ ·) then l
  else { l.insert n token with columns := column :: l.columns }

/-- Closes the innermost block collections as long as `closes` holds of their
columns. -/
def closeBlocks (l : Lexer) (closes : Nat → Bool) : Lexer :=
  if l.inFlow then l
  else
    let count := (l.columns.takeWhile closes).length
    { l with
      tokens := l.tokens ++ Array.replicate count .blockEnd
      columns := l.columns.drop count }

def closeAllBlocks (l : Lexer) : Lexer := l.closeBlocks fun _ => true

/-! ## Keys -/

/-- Gives up the place where a key may have begun. -/
def dropKey (l : Lexer) : Option Lexer :=
  if l.key?.any (·.required) then none else some { l with key? := none }

/-- Remembers that a key may begin here. -/
def rememberKey (l : Lexer) : Option Lexer :=
  if l.keyAllowed then do
    let l ← l.dropKey
    let c := l.cursor
    some { l with
      key? := some {
        tokens := l.tokens.size, index := c.index, line := c.line, column := c.column
        required := !l.inFlow && l.columns.head? == some c.column } }
  else some l

/-- Gives up the places that lie too far back. -/
def dropOldKeys (l : Lexer) : Option Lexer :=
  let isOver := fun (k : KeyPlace) => k.isOver l.cursor
  if (l.key? :: l.outerKeys).any fun key? => key?.any fun k => k.required && isOver k then none
  else
    let keep := Option.filter fun k => !isOver k
    some { l with key? := keep l.key?, outerKeys := l.outerKeys.map keep }

/-! ## Between tokens -/

/-- Passes over blanks, comments and line ends. Where a block key may begin, tabs
are no blanks. The first number bounds the lines. -/
def skipGap : Nat → Lexer → Lexer
  | 0, l => l
  | steps + 1, l =>
    let isGap := fun c => c == ' ' || ((l.inFlow || !l.keyAllowed) && c == '\t')
    let c := (l.cursor.skipWhile isGap).skipComment
    match c.readBreak with
    | some (_, c) => skipGap steps { l with cursor := c, keyAllowed := l.keyAllowed || !l.inFlow }
    | none => { l with cursor := c }

/-! ## Marks and indicators -/

/-- A directive, given the text after its percent sign. Gives its length as well. -/
def directive? (cs : List Char) : Option (Token × Nat) := do
  let name := cs.takeWhile isNameChar
  let rest := cs.drop name.length
  let blanks := (rest.takeWhile isBlank).length
  let text := rest.drop blanks
  let start := name.length + blanks
  if !gapFollows rest then none
  else if name = "YAML".toList then
    let (major, behind) := Digits.span text
    match behind with
    | '.' :: behind =>
      let (minor, _) := Digits.span behind
      if major.isEmpty || minor.isEmpty || 9 < major.length || 9 < minor.length then none
      else some (.version (Digits.value major) (Digits.value minor),
        start + major.length + 1 + minor.length)
    | _ => none
  else if name = "TAG".toList then
    let handle ← Tag.readHandle text
    let behind := text.drop handle.length
    let blanks := (behind.takeWhile isBlank).length
    let length ← Tag.suffixLength? true (behind.drop blanks)
    if Tag.isHandle handle ∧ 0 < blanks ∧ 0 < length ∧
        gapFollows (behind.drop (blanks + length)) then
      some (.handle (String.ofList handle), start + handle.length + blanks + length)
    else none
  else none

def directive (l : Lexer) : Option Lexer := do
  let l ← l.closeAllBlocks.dropKey
  let (token, length) ← directive? (l.cursor.ahead.drop 1)
  let cursor ← (l.cursor.skip (length + 1)).finishLine
  some { (l.push token).allowKey false with cursor }

def documentMark (l : Lexer) (mark : DocumentMark) : Option Lexer := do
  let l ← l.closeAllBlocks.dropKey
  let token := match mark with
    | .opening => Token.documentStart
    | .closing => Token.documentEnd
  some ((l.pushAs token 3).allowKey false)

def openFlow (l : Lexer) (token : Token) : Option Lexer := do
  let l ← l.rememberKey
  some { (l.pushAs token 1).allowKey true with key? := none, outerKeys := l.key? :: l.outerKeys }

def closeFlow (l : Lexer) (token : Token) : Option Lexer := do
  let l ← l.dropKey
  let l := (l.pushAs token 1).allowKey false
  match l.outerKeys with
  | [] => some l
  | key? :: outerKeys => some { l with key?, outerKeys }

def flowEntry (l : Lexer) : Option Lexer := do
  let l ← l.dropKey
  some ((l.pushAs .flowEntry 1).allowKey true)

/-- Opens a block collection at this place if none is open here. A key must be
allowed here. -/
def openBlockHere (l : Lexer) (token : Token) : Option Lexer :=
  if l.inFlow then some l
  else if l.keyAllowed then some (l.openBlock token l.cursor.column l.tokens.size)
  else none

def blockEntry (l : Lexer) : Option Lexer := do
  let l ← (← l.openBlockHere .blockSequenceStart).dropKey
  some ((l.pushAs .blockEntry 1).allowKey true)

def key (l : Lexer) : Option Lexer := do
  let l ← (← l.openBlockHere .blockMappingStart).dropKey
  some ((l.pushAs .key 1).allowKey !l.inFlow)

/-- The colon behind a key. The key may have begun at a place that is remembered;
otherwise it has been marked, or there is none. -/
def value (l : Lexer) : Option Lexer :=
  match l.key? with
  | some k =>
    let l := (l.insert k.tokens .key).openBlock .blockMappingStart k.column k.tokens
    some { (l.pushAs .value 1).allowKey false with key? := none }
  | none => do
    let l ← l.openBlockHere .blockMappingStart
    some ((l.pushAs .value 1).allowKey !l.inFlow)

/-! ## Nodes -/

/-- Characters that may stand directly behind the name of an anchor. -/
def mayFollowName (cs : List Char) : Bool :=
  gapFollows cs || cs.head?.any fun c => ['?', ':', ',', ']', '}', '%', '@', '\x60'].contains c

/-- An anchor or a reference to one. -/
def name (l : Lexer) (token : String → Token) : Option Lexer := do
  let l ← l.rememberKey
  let name := (l.cursor.ahead.drop 1).takeWhile isNameChar
  if name.isEmpty || !mayFollowName (l.cursor.ahead.drop (name.length + 1)) then none
  else some ((l.pushAs (token (String.ofList name)) (name.length + 1)).allowKey false)

def tag (l : Lexer) : Option Lexer := do
  let l ← l.rememberKey
  let (handle, length) ← Tag.read l.cursor.ahead
  let rest := l.cursor.ahead.drop length
  if gapFollows rest || (l.inFlow && rest.head? == some ',') then
    some ((l.pushAs (.tag handle) length).allowKey false)
  else none

def block (l : Lexer) (folded : Bool) : Option Lexer := do
  let l ← l.dropKey
  let (text, cursor) ← Block.read folded l.columns.head? (l.cursor.skip 1)
  some { (l.push (.scalar (String.ofList text) false)).allowKey true with cursor }

def quotation (l : Lexer) (q : Quotation) : Option Lexer := do
  let l ← l.rememberKey
  let (text, cursor) ← q.read (l.cursor.skip 1)
  some { (l.push (.scalar (String.ofList text) false)).allowKey false with cursor }

/-- A scalar without quotes. A key may begin behind it if it ends with its line. -/
def plain (l : Lexer) : Option Lexer := do
  let l ← l.rememberKey
  let (text, endsLine, cursor) ← Plain.read l.inFlow l.margin l.cursor
  some { (l.push (.scalar (String.ofList text) true)).allowKey endsLine with cursor }

/-! ## Tokens -/

/-- Reads the token that begins here. -/
def read? (l : Lexer) : Option Lexer :=
  match l.cursor.ahead with
  | [] => none
  | c :: cs =>
    match l.cursor.documentMark? with
    | some mark => l.documentMark mark
    | none =>
      match c with
      | '%' => if l.cursor.column = 0 then l.directive else none
      | '[' => l.openFlow .flowSequenceStart
      | '{' => l.openFlow .flowMappingStart
      | ']' => l.closeFlow .flowSequenceEnd
      | '}' => l.closeFlow .flowMappingEnd
      | ',' => l.flowEntry
      | '-' => if gapFollows cs then l.blockEntry else l.plain
      | '?' => if l.inFlow || gapFollows cs then l.key else l.plain
      | ':' => if l.inFlow || gapFollows cs then l.value else l.plain
      | '*' => l.name .reference
      | '&' => l.name .anchor
      | '!' => l.tag
      | '|' => if l.inFlow then none else l.block false
      | '>' => if l.inFlow then none else l.block true
      | '\'' => l.quotation .single
      | '"' => l.quotation .double
      | c => if isBlank c || Plain.isIndicator c then none else l.plain

/-- Reads tokens up to the end of the text, where everything that is open is closed.
The first number bounds the tokens. -/
def run : Nat → Lexer → Option Lexer
  | 0, _ => none
  | steps + 1, l => do
    let l ← (l.skipGap (l.cursor.ahead.length + 1)).dropOldKeys
    if l.cursor.ahead.isEmpty then l.closeAllBlocks.dropKey
    else run steps (← (l.closeBlocks (l.cursor.column < ·)).read?)

end Lexer

namespace Token

/-- The tokens of a text. -/
def ofChars? (cs : List Char) : Option (List Token) :=
  if cs.all isAllowed then
    (({ cursor := { ahead := cs } } : Lexer).run (cs.length + 1)).map (·.tokens.toList)
  else none

end Token

end DocumentQuery.Yaml
