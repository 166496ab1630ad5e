/-!
# Lines of a text

A line ends at a line feed, and a carriage return directly before that line
feed belongs to the line end. A carriage return anywhere else is an ordinary
character.

Main definition:

* `Text.lines` — the lines of a text without their ends; a line end that
  closes the text opens no further line, so the empty text has no lines.
-/

namespace DocumentQuery.Text

/-- Puts a character in front of the first line. -/
def extendFirst (c : Char) : List (List Char) → List (List Char)
  | [] => [[c]]
  | line :: rest => (c :: line) :: rest

def lines : List Char → List (List Char)
  | [] => []
  | '\n' :: cs => [] :: lines cs
  | '\r' :: '\n' :: cs => [] :: lines cs
  | c :: cs => extendFirst c (lines cs)

/-- The lines of a string. -/
def linesOf (text : String) : List String :=
  (lines text.toList).map String.ofList

end DocumentQuery.Text
