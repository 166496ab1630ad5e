import DocumentQuery.Number.Digits
import DocumentQuery.Yaml.Cursor

/-!
# Block scalars

A block scalar consists of the indented lines below its header. A literal one
keeps their ends. In a folded one the end of a line stands for a space unless a
blank stands next to it. The header may tell the indentation, and what becomes of
the line ends at the end of the scalar.

Main definitions:

* `Block.Header`, `Block.readHeader`
* `Block.readBreaks` — empty lines, and the indentation of the next line
* `Block.Lines` — the lines so far
* `Block.read`
-/

namespace DocumentQuery.Yaml.Block

/-! ## Headers -/

/-- What becomes of the line ends at the end. -/
inductive Chomping where
  /-- One is kept. -/
  | clip
  /-- All are kept. -/
  | keep
  /-- None is kept. -/
  | strip
deriving DecidableEq, Repr

structure Header where
  chomping : Chomping := .clip
  /-- By how much the lines are indented more than what surrounds them, unless
  the first of them tells. -/
  increment : Option Nat := none
deriving DecidableEq, Repr

def chomping? : Char → Option Chomping
  | '+' => some .keep
  | '-' => some .strip
  | _ => none

def increment? (c : Char) : Option Nat :=
  if '1' ≤ c ∧ c ≤ '9' then some (Digits.digit c) else none

/-- A header and its length. Its parts may stand in either order. -/
def readHeader : List Char → Header × Nat
  | [] => ({}, 0)
  | c :: cs =>
    match chomping? c, increment? c with
    | some chomping, _ =>
      match cs.head?.bind increment? with
      | some increment => (⟨chomping, some increment⟩, 2)
      | none => (⟨chomping, none⟩, 1)
    | none, some increment =>
      match cs.head?.bind chomping? with
      | some chomping => (⟨chomping, some increment⟩, 2)
      | none => (⟨.clip, some increment⟩, 1)
    | none, none => ({}, 0)

/-! ## Lines -/

/-- Passes over the spaces of an indentation, if it is known not more than that. -/
def skipIndent (indent : Option Nat) (c : Cursor) : Cursor :=
  let spaces := (c.ahead.takeWhile (· == ' ')).length
  match indent with
  | some indent => c.skip (min spaces (indent - c.column))
  | none => c.skip spaces

/-- Reads empty lines and the indentation of the line after them. Gives the line
ends, the greatest column that was reached and the place. No tab may stand inside
the indentation. The first number bounds the lines. -/
def readBreaks (indent : Option Nat) :
    Nat → List Char → Nat → Cursor → Option (List Char × Nat × Cursor)
  | 0, breaks, widest, c => some (breaks, widest, c)
  | steps + 1, breaks, widest, c =>
    let c := skipIndent indent c
    let widest := max widest c.column
    if c.ahead.head? = some '\t' ∧ indent.all (c.column < ·) then none
    else
      match c.readBreak with
      | some (b, c) => readBreaks indent steps (breaks ++ [b]) widest c
      | none => some (breaks, widest, c)

/-- The lines that have been read so far. -/
structure Lines where
  text : List Char := []
  /-- The end of the last line. -/
  lastBreak : Option Char := none
  /-- The ends of empty lines after it. -/
  breaks : List Char := []
  /-- The last line begins with a blank. -/
  afterBlank : Bool := false
deriving Repr

namespace Lines

/-- What the line ends before another line stand for. -/
def joint (lines : Lines) (folded beforeBlank : Bool) : List Char :=
  if folded && lines.lastBreak == some '\n' && !lines.afterBlank && !beforeBlank then
    if lines.breaks.isEmpty then [' '] else lines.breaks
  else lines.lastBreak.toList ++ lines.breaks

def chomp (lines : Lines) : Chomping → List Char
  | .clip => lines.text ++ lines.lastBreak.toList
  | .keep => lines.text ++ lines.lastBreak.toList ++ lines.breaks
  | .strip => lines.text

end Lines

/-- Reads lines as long as they are indented by `indent`. The first number bounds
the lines. -/
def readLines (folded : Bool) (indent : Nat) : Nat → Lines → Cursor → Option (Lines × Cursor)
  | 0, lines, c => some (lines, c)
  | steps + 1, lines, c =>
    if c.column ≠ indent ∨ c.ahead.isEmpty then some (lines, c)
    else do
      let blank := c.ahead.head?.any isBlank
      let line := c.ahead.takeWhile (!isBreak ·)
      let text := lines.text ++ lines.joint folded blank ++ line
      let c := c.skip line.length
      let (lastBreak, c) :=
        match c.readBreak with
        | some (b, c) => (some b, c)
        | none => (none, c)
      let (breaks, _, c) ← readBreaks (some indent) (c.ahead.length + 1) [] 0 c
      readLines folded indent steps { text, lastBreak, breaks, afterBlank := blank } c

/-! ## Scalars -/

/-- A scalar, given the place behind its indicator. `parent` is the column of the
block collection around it. -/
def read (folded : Bool) (parent : Option Nat) (c : Cursor) : Option (List Char × Cursor) := do
  let (header, length) := readHeader c.ahead
  let c ← (c.skip length).finishLine
  let steps := c.ahead.length + 1
  let known := header.increment.map (parent.getD 0 + ·)
  let (breaks, widest, c) ← readBreaks known steps [] 0 c
  let least := parent.elim 1 (· + 1)
  let indent := known.getD (max widest least)
  let (lines, c) ← readLines folded indent steps { breaks } c
  some (lines.chomp header.chomping, c)

end DocumentQuery.Yaml.Block
