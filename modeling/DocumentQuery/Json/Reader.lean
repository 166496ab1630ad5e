import DocumentQuery.Json.Quoted
import DocumentQuery.Number.Scaled

/-!
# Reading JSON documents

The reader follows RFC 8259. Blanks are space, tab, line feed and carriage
return. Reading gives a tree for every text; see `Json` for what the tree of a
faulty text holds. Arrays and objects nest at most `Json.greatestDepth` deep;
one that is nested deeper has no value.

Main definitions:

* `Json.readNumeral` — the longest number at the head of a text
* `Json.readValue` — the value at the head of a text, and what follows it
* `Json.Document.ofText` — a whole text
-/

namespace DocumentQuery.Json

def greatestDepth : Nat := 127

/-- What follows the part that has been read, or why the text breaks off. -/
abbrev Rest := Except Flaw (List Char)

def isBlank (c : Char) : Bool :=
  c == ' ' || c == '\t' || c == '\n' || c == '\r'

def skipBlank (cs : List Char) : List Char := cs.dropWhile isBlank

/-! ## Words and numbers -/

/-- Passes over the letters of a word, in which the text must not end. -/
def readWord (atEnd : Flaw) : List Char → List Char → Rest
  | [], cs => .ok cs
  | _ :: _, [] => .error atEnd
  | w :: word, c :: cs => if c = w then readWord atEnd word cs else .error .malformed

/-- At least one digit, and what follows the digits. -/
def readDigits (cs : List Char) : Except Flaw (List Char × List Char) :=
  match Digits.span cs with
  | ([], []) => .error .endedInNumber
  | ([], _ :: _) => .error .malformed
  | (digits, rest) => .ok (digits, rest)

/-- The digits before the point: a zero, or digits that start with none. -/
def readWhole (cs : List Char) : Except Flaw (List Char × List Char) := do
  let (digits, rest) ← readDigits cs
  if digits.head? = some '0' ∧ digits ≠ ['0'] then .error .malformed
  else .ok (digits, rest)

/-- A point with digits after it, if there is one. -/
def readFraction : List Char → Except Flaw (List Char × List Char)
  | '.' :: cs => readDigits cs
  | cs => .ok ([], cs)

/-- An exponent, if there is one. -/
def readExponent : List Char → Except Flaw (Option Int × List Char)
  | c :: cs =>
    if c = 'e' ∨ c = 'E' then do
      let (negative, cs) := match cs with
        | '+' :: cs => (false, cs)
        | '-' :: cs => (true, cs)
        | cs => (false, cs)
      let (digits, rest) ← readDigits cs
      let size : Int := Digits.value digits
      .ok (some (if negative then -size else size), rest)
    else .ok (none, c :: cs)
  | [] => .ok (none, [])

/-- A number after its sign. -/
def readNumeral (negative : Bool) (cs : List Char) : Except Flaw (Numeral × List Char) := do
  let (whole, cs) ← readWhole cs
  let (fraction, cs) ← readFraction cs
  let (exponent, rest) ← readExponent cs
  .ok ({ negative, whole, fraction, exponent := exponent.getD 0,
         plain := fraction.isEmpty && exponent.isNone }, rest)

/-- The value of a number. -/
def ofNumeral (numeral : Numeral) : Json :=
  match numeral.integer? with
  | some n => .int n
  | none =>
    match numeral.double? with
    | some x => .real x
    | none => .unfit

/-- What a failed or successful reading of a part leaves in the tree. -/
def leaf {α : Type} (value : α → Json) : Except Flaw (α × List Char) → Json × Rest
  | .ok (a, rest) => (value a, .ok rest)
  | .error f => (.broken f, .error f)

/-- `j`, or nothing of value once nesting is too deep. -/
def atDepth (depth : Nat) (j : Json) : Json :=
  if depth = 0 then .unfit else j

/-- An object that breaks off after members, given last one first. -/
def tornAt (done : List (String × Json)) (f : Flaw) : Json × Rest :=
  (.torn done.reverse (.broken f), .error f)

/-- An object that breaks off where `key` stands in place of a key. -/
def noKey (done : List (String × Json)) (key : Json) (f : Flaw) : Json × Rest :=
  (.torn done.reverse (.unkeyed key (.broken f)), .error f)

/-! ## Values -/

mutual

/-- The value at the head of a text. `depth` levels of nesting are left. The
first number bounds the steps of the reader. -/
def readValue : Nat → Nat → List Char → Json × Rest
  | 0, _, _ => (.broken .malformed, .error .malformed)
  | steps + 1, depth, cs =>
    match skipBlank cs with
    | [] => (.broken .ended, .error .ended)
    | '"' :: cs => leaf (fun s => (s.map Json.str).getD .unfit) (Quoted.read cs)
    | '[' :: cs =>
      let (items, rest) := readItems steps (depth - 1) cs
      (atDepth depth (.arr items), rest)
    | '{' :: cs =>
      let (j, rest) := readMembers steps (depth - 1) cs
      (atDepth depth j, rest)
    | 'n' :: cs =>
      leaf (fun _ => .null) ((readWord .endedInNull ['u', 'l', 'l'] cs).map ((), ·))
    | 't' :: cs =>
      leaf (fun _ => .bool true) ((readWord .endedInWord ['r', 'u', 'e'] cs).map ((), ·))
    | 'f' :: cs =>
      leaf (fun _ => .bool false) ((readWord .endedInWord ['a', 'l', 's', 'e'] cs).map ((), ·))
    | '-' :: cs => leaf ofNumeral (readNumeral true cs)
    | c :: cs =>
      if c.isDigit then leaf ofNumeral (readNumeral false (c :: cs))
      else (.broken .malformed, .error .malformed)
termination_by structural steps => steps

/-- The items of an array after its opening bracket. -/
def readItems : Nat → Nat → List Char → List Json × Rest
  | 0, _, _ => ([.broken .malformed], .error .malformed)
  | steps + 1, depth, cs =>
    match skipBlank cs with
    | [] => ([.broken .ended], .error .ended)
    | ']' :: rest => ([], .ok rest)
    | cs => readItem steps depth cs
termination_by structural steps => steps

/-- An item of an array, and the items after it. -/
def readItem : Nat → Nat → List Char → List Json × Rest
  | 0, _, _ => ([.broken .malformed], .error .malformed)
  | steps + 1, depth, cs =>
    match readValue steps depth cs with
    | (j, .error f) => ([j, .broken f], .error f)
    | (j, .ok cs) =>
      match skipBlank cs with
      | [] => ([j, .broken .ended], .error .ended)
      | ']' :: rest => ([j], .ok rest)
      | ',' :: cs =>
        let (js, rest) := readItem steps depth cs
        (j :: js, rest)
      | _ => ([j, .broken .malformed], .error .malformed)
termination_by structural steps => steps

/-- The members of an object after its opening brace. Whatever else than a string
stands in place of the first key is kept. -/
def readMembers : Nat → Nat → List Char → Json × Rest
  | 0, _, _ => (.torn [] (.broken .malformed), .error .malformed)
  | steps + 1, depth, cs =>
    match skipBlank cs with
    | [] => noKey [] (.broken .ended) .ended
    | '}' :: rest => (.obj [], .ok rest)
    | '"' :: cs => readMember steps depth [] ('"' :: cs)
    | cs => noKey [] (readValue steps greatestDepth cs).1 .malformed
termination_by structural steps => steps

/-- A member of an object, and the members after it; `done` are those before it,
last one first. -/
def readMember : Nat → Nat → List (String × Json) → List Char → Json × Rest
  | 0, _, done, _ => noKey done (.broken .malformed) .malformed
  | steps + 1, depth, done, cs =>
    match skipBlank cs with
    | [] => noKey done (.broken .ended) .ended
    | '"' :: cs =>
      match Quoted.read cs with
      | .error f => noKey done (.broken f) f
      | .ok (some key, cs) => readPayload steps depth done key cs
      | .ok (none, cs) =>
        let (object, rest) := readPayload steps depth [] "" cs
        (.torn done.reverse (.unkeyed .unfit object), rest)
    | _ => noKey done (.broken .malformed) .malformed
termination_by structural steps => steps

/-- What stands behind the key of a member, and the members after it. -/
def readPayload : Nat → Nat → List (String × Json) → String → List Char → Json × Rest
  | 0, _, done, _, _ => noKey done (.broken .malformed) .malformed
  | steps + 1, depth, done, key, cs =>
    match skipBlank cs with
    | [] => tornAt ((key, .broken .ended) :: done) .ended
    | ':' :: cs =>
      match readValue steps depth cs with
      | (j, .error f) => tornAt ((key, j) :: done) f
      | (j, .ok cs) =>
        let done := (key, j) :: done
        match skipBlank cs with
        | [] => tornAt done .ended
        | '}' :: rest => (.obj done.reverse, .ok rest)
        | ',' :: cs => readMember steps depth done cs
        | _ => tornAt done .malformed
    | _ => tornAt ((key, .broken .malformed) :: done) .malformed
termination_by structural steps => steps

end

/-- A whole text: its value, and what is wrong after it. -/
structure Document where
  root : Json
  trailing : Option Flaw := none

namespace Document

/-- Every value, item and member takes at least one character, and none of them
needs more than four steps. -/
def ofChars (cs : List Char) : Document :=
  match readValue (4 * cs.length + 4) greatestDepth cs with
  | (root, .error f) => ⟨root, some f⟩
  | (root, .ok rest) => ⟨root, if (skipBlank rest).isEmpty then none else some .malformed⟩

def ofText (text : String) : Document := ofChars text.toList

end Document

end DocumentQuery.Json
