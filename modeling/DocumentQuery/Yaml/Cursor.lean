/-!
# Places in a YAML text

A line ends at a line feed, a carriage return, both of them in this order, or one
of the three line ends that Unicode adds. Columns count the characters since the
last line end.

Main definitions:

* `Cursor` — a place in a text, with what lies ahead of it
* `Cursor.skip`, `Cursor.readBreak` — going on, within a line and to the next one
* `Cursor.documentMark?` — the marks that separate documents
-/

namespace DocumentQuery.Yaml

/-! ## Characters -/

def isBlank (c : Char) : Bool := c == ' ' || c == '\t'

/-- The characters that end a line. -/
def isBreak (c : Char) : Bool :=
  c == '\n' || c == '\r' || c == '\u0085' || c == '\u2028' || c == '\u2029'

/-- A blank, a line end or the end of the text comes next. -/
def gapFollows : List Char → Bool
  | [] => true
  | c :: _ => isBlank c || isBreak c

/-- Characters that names of anchors and tags consist of. -/
def isNameChar (c : Char) : Bool := c.isAlphanum || c == '_' || c == '-'

/-- Characters that a text may contain. -/
def isAllowed (c : Char) : Bool :=
  c == '\t' || c == '\n' || c == '\r' || c == '\u0085' || (' ' ≤ c && c ≤ '~') ||
    ('\u00a0' ≤ c && c ≠ '\ufeff' && c ≠ '\ufffe' && c ≠ '\uffff')

/-! ## Places -/

structure Cursor where
  ahead : List Char
  index : Nat := 0
  line : Nat := 0
  column : Nat := 0
deriving Repr

/-- What stands between documents. -/
inductive DocumentMark where
  /-- Three hyphens open a document. -/
  | opening
  /-- Three points close one. -/
  | closing
deriving DecidableEq, Repr

namespace Cursor

/-- Passes over characters of the current line. -/
def skip (c : Cursor) (count : Nat) : Cursor :=
  { c with ahead := c.ahead.drop count, index := c.index + count, column := c.column + count }

def skipWhile (p : Char → Bool) (c : Cursor) : Cursor := c.skip (c.ahead.takeWhile p).length

/-- Passes over a line end of so many characters. -/
def nextLine (c : Cursor) (count : Nat) : Cursor :=
  { ahead := c.ahead.drop count, index := c.index + count, line := c.line + 1, column := 0 }

/-- A line end: what it adds to a text, and the place behind it. Only the line and
paragraph separators are kept as they are. -/
def readBreak (c : Cursor) : Option (Char × Cursor) :=
  match c.ahead with
  | '\r' :: '\n' :: _ => some ('\n', c.nextLine 2)
  | '\u2028' :: _ => some ('\u2028', c.nextLine 1)
  | '\u2029' :: _ => some ('\u2029', c.nextLine 1)
  | b :: _ => if isBreak b then some ('\n', c.nextLine 1) else none
  | [] => none

/-- Passes over a comment up to the end of its line. -/
def skipComment (c : Cursor) : Cursor :=
  if c.ahead.head? = some '#' then c.skipWhile (!isBreak ·) else c

/-- Passes over the rest of a line on which nothing but a comment may follow. -/
def finishLine (c : Cursor) : Option Cursor :=
  let c := (c.skipWhile isBlank).skipComment
  match c.readBreak with
  | some (_, c) => some c
  | none => if c.ahead.isEmpty then some c else none

/-- The mark that a line begins with. -/
def documentMark? (c : Cursor) : Option DocumentMark :=
  match c.column, c.ahead with
  | 0, '-' :: '-' :: '-' :: cs => if gapFollows cs then some .opening else none
  | 0, '.' :: '.' :: '.' :: cs => if gapFollows cs then some .closing else none
  | _, _ => none

end Cursor

end DocumentQuery.Yaml
