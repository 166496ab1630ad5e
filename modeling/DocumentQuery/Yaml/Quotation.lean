import DocumentQuery.Number.Digits
import DocumentQuery.Yaml.Gap

/-!
# Scalars in quotes

Between single quotes only the quote itself is escaped, by writing it twice.
Between double quotes a reverse solidus begins an escape; before a line end it
takes the line end away.

Main definitions:

* `Quotation` — single or double
* `Quotation.at?` — what stands at one place between quotes
* `Quotation.read`
-/

namespace DocumentQuery.Yaml

inductive Quotation where
  | single
  | double
deriving DecidableEq, Repr

namespace Quotation

def mark : Quotation → Char
  | .single => '\''
  | .double => '"'

/-- What stands at one place between quotes. -/
inductive Part where
  /-- So many characters that stand for `c`. -/
  | char (c : Char) (length : Nat)
  /-- A reverse solidus that takes the line end behind it away. -/
  | joint
  /-- A gap or the closing quote. -/
  | stop
deriving DecidableEq, Repr

/-- The character with a number, if there is one. -/
def character? (n : Nat) : Option Char := if n.isValidChar then some (Char.ofNat n) else none

/-- What a letter after a reverse solidus stands for. -/
def escaped? : Char → Option Char
  | '0' => some '\x00'
  | 'a' => some '\x07'
  | 'b' => some '\x08'
  | 't' | '\t' => some '\t'
  | 'n' => some '\n'
  | 'v' => some '\x0b'
  | 'f' => some '\x0c'
  | 'r' => some '\r'
  | 'e' => some '\x1b'
  | ' ' => some ' '
  | '"' => some '"'
  | '/' => some '/'
  | '\\' => some '\\'
  | 'N' => some '\u0085'
  | '_' => some '\u00a0'
  | 'L' => some '\u2028'
  | 'P' => some '\u2029'
  | _ => none

/-- The number of hexadecimal digits after a letter that announces them. -/
def codeLength? : Char → Option Nat
  | 'x' => some 2
  | 'u' => some 4
  | 'U' => some 8
  | _ => none

/-- The character whose number is written in so many hexadecimal digits. -/
def ofCode? (length : Nat) (cs : List Char) : Option Char := do
  let digits ← (cs.take length).mapM Digits.hexValue?
  if digits.length = length then character? (digits.foldl (fun n d => 16 * n + d) 0) else none

/-- An escape, given the text after its reverse solidus. -/
def escape? : List Char → Option Part
  | [] => none
  | c :: cs =>
    if isBreak c then some .joint
    else
      match codeLength? c with
      | some length => (ofCode? length cs).map fun d => .char d (length + 2)
      | none => (escaped? c).map fun d => .char d 2

/-- What stands at one place between quotes. The text must not end there. -/
def at? : Quotation → List Char → Option Part
  | _, [] => none
  | .single, '\'' :: '\'' :: _ => some (.char '\'' 2)
  | .double, '\\' :: cs => escape? cs
  | q, c :: _ => some (if c = q.mark || isBlank c || isBreak c then .stop else .char c 1)

/-- Reads parts up to a gap, a joint or the closing quote. Gives the characters
and what comes after them; `text` has been read before. The first number bounds
the parts. -/
def word (q : Quotation) : Nat → List Char → Cursor → Option (List Char × Part × Cursor)
  | 0, _, _ => none
  | steps + 1, text, c => do
    match ← q.at? c.ahead with
    | .char d length => word q steps (text ++ [d]) (c.skip length)
    | part => some (text, part, c)

/-- Reads words and gaps up to the closing quote. No mark between documents may
stand among them. The first number bounds the words. -/
def readFrom (q : Quotation) : Nat → List Char → Cursor → Option (List Char × Cursor)
  | 0, _, _ => none
  | steps + 1, text, c =>
    if c.documentMark?.isSome then none
    else do
      let (text, part, c) ← q.word (c.ahead.length + 1) text c
      if part = .joint then
        let (_, c) ← (c.skip 1).readBreak
        let (gap, c) ← Gap.read 0 (.breaks none []) c
        readFrom q steps (text ++ gap.fold) c
      else if c.ahead.head? = some q.mark then some (text, c.skip 1)
      else
        let (gap, c) ← Gap.read 0 Gap.empty c
        readFrom q steps (text ++ gap.fold) c

/-- A scalar, given the place behind its opening quote. -/
def read (q : Quotation) (c : Cursor) : Option (List Char × Cursor) :=
  readFrom q (c.ahead.length + 1) [] c

end Quotation

end DocumentQuery.Yaml
