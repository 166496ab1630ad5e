import DocumentQuery.Text.Lines

/-!
# Text with indented lines

`IndentedText` is a text under construction together with the indent level.
The spaces of a line are written with the first non-empty text on it, at the
level of that moment, so an empty line carries none and the first line is
never indented.

`Layout` is the same text as data: the pieces and level changes in order.
Code that produces text builds a `Layout`; only `Layout.render` knows the
width of one level.

Main definitions:

* `IndentedText.append`, `appendLine`, `appendLines`, `indent`, `dedent`
* `Layout.render` — the text of a layout
-/

namespace DocumentQuery

/-- A text under construction. -/
structure IndentedText where
  /-- What has been written. -/
  text : String := ""
  /-- Spaces per level. -/
  width : Nat
  /-- Current level. -/
  level : Nat := 0
  /-- The current line was opened by a line feed and holds nothing yet. -/
  fresh : Bool := false
deriving DecidableEq, Repr

namespace IndentedText

/-- An empty text with `width` spaces per level. -/
def ofWidth (width : Nat) : IndentedText := { width }

def spaces (count : Nat) : String := String.ofList (List.replicate count ' ')

/-- The spaces still owed to the current line. -/
def margin (t : IndentedText) : String :=
  if t.fresh then spaces (t.level * t.width) else ""

/-- Writes `s` on the current line; the empty string leaves no trace. -/
def append (t : IndentedText) (s : String) : IndentedText :=
  if s.isEmpty then t
  else { t with text := t.text ++ t.margin ++ s, fresh := false }

/-- Ends the current line. -/
def newline (t : IndentedText) : IndentedText :=
  { t with text := t.text ++ "\n", fresh := true }

def appendLine (t : IndentedText) (s : String) : IndentedText :=
  (t.append s).newline

/-- Writes each line of `s` as a line of its own; a text without lines is one
empty line. -/
def appendLines (t : IndentedText) (s : String) : IndentedText :=
  match Text.linesOf s with
  | [] => t.newline
  | lines => lines.foldl appendLine t

def indent (t : IndentedText) : IndentedText := { t with level := t.level + 1 }

/-- One level back; level zero stays. -/
def dedent (t : IndentedText) : IndentedText := { t with level := t.level - 1 }

end IndentedText

/-! ## Layouts -/

/-- One step in writing an indented text. -/
inductive Piece where
  | text (s : String)
  | newline
  | indent
  | dedent
deriving DecidableEq, Repr

/-- An indented text as data. -/
abbrev Layout := List Piece

namespace Piece

/-- Carries out one step. -/
def write (t : IndentedText) : Piece → IndentedText
  | .text s => t.append s
  | .newline => t.newline
  | .indent => t.indent
  | .dedent => t.dedent

end Piece

namespace Layout

/-- The layout of a text on one line. -/
def text (s : String) : Layout := [.text s]

/-- The lines of `s`, each followed by a line end. -/
def ofLines (s : String) : Layout :=
  match Text.linesOf s with
  | [] => [.newline]
  | lines => lines.flatMap fun line => [.text line, .newline]

/-- `body` one level deeper. -/
def nested (body : Layout) : Layout := .indent :: body ++ [.dedent]

/-- `opening`, then `body` on lines of its own one level deeper, then
`closing` directly after its last line. -/
def block (opening : String) (body : Layout) (closing : String) : Layout :=
  [.text opening, .newline] ++ nested body ++ [.text closing]

/-- The items of a list with `separator` between them. -/
def separated (separator : Layout) : List Layout → Layout
  | [] => []
  | [item] => item
  | item :: rest => item ++ separator ++ separated separator rest

/-- Continues `t` with the steps of a layout. -/
def writeOn (layout : Layout) (t : IndentedText) : IndentedText :=
  layout.foldl Piece.write t

/-- The text of a layout at `width` spaces per level. -/
def render (width : Nat) (layout : Layout) : String :=
  (layout.writeOn (IndentedText.ofWidth width)).text

end Layout

end DocumentQuery
