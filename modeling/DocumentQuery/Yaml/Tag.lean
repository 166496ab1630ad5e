import DocumentQuery.Number.Digits
import DocumentQuery.Yaml.Cursor

/-!
# Tags

A tag is written as a handle and a suffix, or between angle brackets without a
handle. Nothing that is read here depends on what a tag says; it only has to be
well written, and its handle has to be a known one.

Main definitions:

* `Tag.readHandle`, `Tag.suffixLength?`
* `Tag.read` — the handle of a tag, and the length of the whole
* `Tag.defaultHandles`
-/

namespace DocumentQuery.Yaml.Tag

/-! ## Suffixes -/

/-- Characters of a suffix. Brackets and commas stand only in a full name, as it is
written between angle brackets and in a directive. -/
def isSuffixChar (isFull : Bool) (c : Char) : Bool :=
  isNameChar c || ";/?:@&=+$.!~*'()".toList.contains c || (isFull && [',', '[', ']'].contains c)

/-- A byte in hexadecimal digits after a percent sign. -/
def octet? : List Char → Option Nat
  | '%' :: a :: b :: _ => do
    let a ← Digits.hexValue? a
    let b ← Digits.hexValue? b
    some (16 * a + b)
  | _ => none

/-- The number of bytes of a character whose first byte is `lead`. -/
def byteCount? (lead : Nat) : Option Nat :=
  if lead < 128 then some 1
  else if lead / 32 = 6 then some 2
  else if lead / 16 = 14 then some 3
  else if lead / 8 = 30 then some 4
  else none

/-- So many bytes that continue a character are written here. -/
def continues : Nat → List Char → Bool
  | 0, _ => true
  | count + 1, cs =>
    match octet? cs with
    | some byte => byte / 64 == 2 && continues count (cs.drop 3)
    | none => false

/-- The length of a character that is written as bytes. -/
def escapeLength? (cs : List Char) : Option Nat := do
  let count ← byteCount? (← octet? cs)
  if continues (count - 1) (cs.drop 3) then some (3 * count) else none

/-- The length of a suffix after passing over `skip` characters of it. -/
def suffixLengthFrom? (isFull : Bool) : Nat → List Char → Option Nat
  | _, [] => some 0
  | skip + 1, _ :: cs => (suffixLengthFrom? isFull skip cs).map (· + 1)
  | 0, c :: cs =>
    if c = '%' then do
      let length ← escapeLength? (c :: cs)
      (suffixLengthFrom? isFull (length - 1) cs).map (· + 1)
    else if isSuffixChar isFull c then (suffixLengthFrom? isFull 0 cs).map (· + 1)
    else some 0

def suffixLength? (isFull : Bool) (cs : List Char) : Option Nat := suffixLengthFrom? isFull 0 cs

/-! ## Tags -/

/-- An exclamation mark, a name, and another mark if there is one. -/
def readHandle : List Char → Option (List Char)
  | '!' :: cs =>
    let name := cs.takeWhile isNameChar
    match cs.drop name.length with
    | '!' :: _ => some ('!' :: name ++ ['!'])
    | _ => some ('!' :: name)
  | _ => none

/-- A handle is a mark alone or ends with another one. -/
def isHandle (text : List Char) : Bool := text.getLast? == some '!'

/-- The handle of a tag, if it has one, and the length of the whole. What looks like
a handle without its second mark begins the suffix; a mark alone has none. -/
def read : List Char → Option (Option String × Nat)
  | '!' :: '<' :: cs => do
    let length ← suffixLength? true cs
    if 0 < length ∧ (cs.drop length).head? = some '>' then some (none, length + 3) else none
  | cs => do
    let handle ← readHandle cs
    let length ← suffixLength? false (cs.drop handle.length)
    if isHandle handle ∧ handle ≠ ['!'] then
      if 0 < length then some (some (String.ofList handle), handle.length + length) else none
    else if handle.length + length = 1 then some (none, 1)
    else some (some "!", handle.length + length)

/-- The handles that need no directive. -/
def defaultHandles : List String := ["!", "!!"]

end DocumentQuery.Yaml.Tag
