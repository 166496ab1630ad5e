import DocumentQuery.Json.Basic
import DocumentQuery.Number.Digits

/-!
# Strings of JSON documents

A string is written between quotes. A quote, a reverse solidus and the
characters below U+0020 are escaped; every other character stands for itself.

Main definitions:

* `Quoted.escape`, `Quoted.write` — a string as written
* `Quoted.escapeAt` — what an escape stands for, and how long it is
* `Quoted.read` — the string up to its closing quote
-/

namespace DocumentQuery.Quoted

/-! ## Writing -/

/-- One character inside a string. -/
def escape (c : Char) : List Char :=
  match c with
  | '"' => ['\\', '"']
  | '\\' => ['\\', '\\']
  | '\x08' => ['\\', 'b']
  | '\x0c' => ['\\', 'f']
  | '\n' => ['\\', 'n']
  | '\r' => ['\\', 'r']
  | '\t' => ['\\', 't']
  | c =>
    if c.toNat < 0x20 then
      ['\\', 'u', '0', '0', Digits.hexDigit (c.toNat / 16),
        Digits.hexDigit (c.toNat % 16)]
    else [c]

/-- A string between its quotes. -/
def write (s : String) : List Char :=
  '"' :: s.toList.flatMap escape ++ ['"']

/-! ## Reading -/

/-- The number that four hexadecimal digits denote. Fewer than four bytes mean
that the text has ended. -/
def fourHex : List Char → Except Flaw Nat
  | a :: b :: c :: d :: _ =>
    match Digits.hexValue? a, Digits.hexValue? b, Digits.hexValue? c, Digits.hexValue? d with
    | some a, some b, some c, some d => .ok (((a * 16 + b) * 16 + c) * 16 + d)
    | _, _, _, _ => .error .malformed
  | cs => .error (if (String.ofList cs).utf8ByteSize < 4 then .ended else .malformed)

/-- What stands after a reverse solidus. -/
inductive Escape where
  /-- `length` characters that stand for `c`. -/
  | char (c : Char) (length : Nat)
  /-- A surrogate without its other half. -/
  | half (length : Nat)
  | flaw (f : Flaw)
deriving DecidableEq, Repr

def isLeading (n : Nat) : Bool := 0xD800 ≤ n && n ≤ 0xDBFF

def isTrailing (n : Nat) : Bool := 0xDC00 ≤ n && n ≤ 0xDFFF

/-- The character that a surrogate pair stands for. -/
def pair (leading trailing : Nat) : Char :=
  Char.ofNat (0x10000 + (leading - 0xD800) * 0x400 + (trailing - 0xDC00))

/-- What follows the leading surrogate `n`, given the text after its escape. -/
def trailingAt (n : Nat) : List Char → Escape
  | [] => .flaw .ended
  | ['\\'] => .flaw .ended
  | '\\' :: 'u' :: cs =>
    match fourHex cs with
    | .error f => .flaw f
    | .ok m => if isTrailing m then .char (pair n m) 11 else .half 5
  | _ => .half 5

/-- What the escape stands for, given the text after its reverse solidus. -/
def escapeAt : List Char → Escape
  | [] => .flaw .ended
  | 'u' :: cs =>
    match fourHex cs with
    | .error f => .flaw f
    | .ok n =>
      if isTrailing n then .half 5
      else if isLeading n then trailingAt n (cs.drop 4)
      else .char (Char.ofNat n) 5
  | c :: _ =>
    match c with
    | '"' => .char '"' 1
    | '\\' => .char '\\' 1
    | '/' => .char '/' 1
    | 'b' => .char '\x08' 1
    | 'f' => .char '\x0c' 1
    | 'n' => .char '\n' 1
    | 'r' => .char '\r' 1
    | 't' => .char '\t' 1
    | _ => .flaw .malformed

/-- A flaw inside a string of which `done` has been read. -/
def flawAfter (done : Option (List Char)) (f : Flaw) : Flaw :=
  match done, f with
  | none, .ended => .endedInUnfit
  | _, f => f

/-- A string up to its closing quote, after passing over `skip` characters.
`done` holds the characters so far, last one first, and is absent once a part of
the string has no value. Gives the string, if it has a value, and the rest. -/
def readFrom : Nat → Option (List Char) → List Char →
    Except Flaw (Option String × List Char)
  | _, done, [] => .error (flawAfter done .ended)
  | skip + 1, done, _ :: cs => readFrom skip done cs
  | 0, done, c :: cs =>
    if c = '"' then .ok (done.map fun done => String.ofList done.reverse, cs)
    else if c = '\\' then
      match escapeAt cs with
      | .char d length => readFrom length (done.map (d :: ·)) cs
      | .half length => readFrom length none cs
      | .flaw f => .error (flawAfter done f)
    else if c.toNat < 0x20 then .error .malformed
    else readFrom 0 (done.map (c :: ·)) cs

/-- A string, given the text after its opening quote. -/
def read (cs : List Char) : Except Flaw (Option String × List Char) :=
  readFrom 0 (some []) cs

end DocumentQuery.Quoted
