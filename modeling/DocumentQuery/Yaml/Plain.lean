import DocumentQuery.Yaml.Gap

/-!
# Scalars without quotes

A scalar without quotes ends at a colon with a gap behind it, at a comment, at a
mark between documents, and at a line that is not indented deeply enough. In a
flow collection it also ends at the characters that divide the collection.

Main definitions:

* `Plain.word` — the characters up to the next gap
* `Plain.read`
-/

namespace DocumentQuery.Yaml.Plain

def isFlowIndicator (c : Char) : Bool := [',', '[', ']', '{', '}'].contains c

/-- Characters that begin something other than a scalar without quotes. -/
def isIndicator (c : Char) : Bool :=
  ['-', '?', ':', ',', '[', ']', '{', '}', '#', '&', '*', '!', '|', '>', '\'', '"', '%', '@',
    '\x60'].contains c

/-- A colon that is followed by an indicator of flow collections. -/
def isTightColon (c : Char) (cs : List Char) : Bool :=
  c == ':' && cs.head?.any fun next => next == '?' || isFlowIndicator next

/-- A scalar ends before `c`, followed by `cs`, although no gap is there. -/
def mayEnd (inFlow : Bool) (c : Char) (cs : List Char) : Bool :=
  (c == ':' && gapFollows cs) || (inFlow && isFlowIndicator c)

/-- The characters up to the next gap or the end of the scalar. -/
def word (inFlow : Bool) : List Char → Option (List Char)
  | [] => some []
  | c :: cs =>
    if isBlank c || isBreak c then some []
    else if inFlow && isTightColon c cs then none
    else if mayEnd inFlow c cs then some []
    else (word inFlow cs).map (c :: ·)

/-- Reads words and gaps; `text` has been read before the gap `gap`. Gives the
text, whether a line end follows it, and the place of the next token. The first
number bounds the words. -/
def readFrom (inFlow : Bool) (margin : Nat) :
    Nat → List Char → Gap → Cursor → Option (List Char × Bool × Cursor)
  | 0, text, gap, c => some (text, gap.isBroken, c)
  | steps + 1, text, gap, c =>
    if c.documentMark?.isSome || c.ahead.head? == some '#' then some (text, gap.isBroken, c)
    else do
      let chars ← word inFlow c.ahead
      let c := c.skip chars.length
      let (text, gap) :=
        if chars.isEmpty then (text, gap) else (text ++ gap.fold ++ chars, Gap.empty)
      if c.ahead.isEmpty || !gapFollows c.ahead then some (text, gap.isBroken, c)
      else do
        let (gap, c) ← Gap.read margin gap c
        if !inFlow && c.column < margin then some (text, gap.isBroken, c)
        else readFrom inFlow margin steps text gap c

/-- A scalar. Outside flow collections its lines begin at the column `margin` or
behind it. -/
def read (inFlow : Bool) (margin : Nat) (c : Cursor) : Option (List Char × Bool × Cursor) :=
  readFrom inFlow margin (c.ahead.length + 1) [] Gap.empty c

end DocumentQuery.Yaml.Plain
