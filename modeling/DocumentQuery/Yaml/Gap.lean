import DocumentQuery.Yaml.Cursor

/-!
# Gaps between the words of a scalar

A scalar may go on over several lines. Where it does, one line end stands for a
space, and of several the first is left out; blanks around them do not count.

Main definitions:

* `Gap`, `Gap.fold` — what lies between two words, and what it stands for
* `Gap.read`
-/

namespace DocumentQuery.Yaml

/-- What lies between two words of a scalar. -/
inductive Gap where
  /-- Blanks on one line. -/
  | blanks (text : List Char)
  /-- A line end, unless it is escaped, and the line ends after it. -/
  | breaks (first : Option Char) (more : List Char)
deriving DecidableEq, Repr

namespace Gap

/-- Nothing lies between. -/
def empty : Gap := .blanks []

def isBroken : Gap → Bool
  | .blanks _ => false
  | .breaks _ _ => true

/-- What a gap stands for. -/
def fold : Gap → List Char
  | .blanks text => text
  | .breaks (some '\n') [] => [' ']
  | .breaks (some '\n') more => more
  | .breaks first more => first.toList ++ more

def addBlank (gap : Gap) (c : Char) : Gap :=
  match gap with
  | .blanks text => .blanks (text ++ [c])
  | .breaks first more => .breaks first more

def addBreak (gap : Gap) (b : Char) : Gap :=
  match gap with
  | .blanks _ => .breaks (some b) []
  | .breaks first more => .breaks first (more ++ [b])

/-- Reads to the next word. Behind a line end no tab may stand before the column
`margin`. The first number bounds the characters that are passed over. -/
def readFrom (margin : Nat) : Nat → Gap → Cursor → Option (Gap × Cursor)
  | 0, gap, c => some (gap, c)
  | steps + 1, gap, c =>
    match c.readBreak, c.ahead with
    | some (b, c), _ => readFrom margin steps (gap.addBreak b) c
    | _, [] => some (gap, c)
    | _, d :: _ =>
      if !isBlank d then some (gap, c)
      else if gap.isBroken && d == '\t' && c.column < margin then none
      else readFrom margin steps (gap.addBlank d) (c.skip 1)

def read (margin : Nat) (gap : Gap) (c : Cursor) : Option (Gap × Cursor) :=
  readFrom margin c.ahead.length gap c

end Gap

end DocumentQuery.Yaml
