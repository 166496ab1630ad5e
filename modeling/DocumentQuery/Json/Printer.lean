import DocumentQuery.Json.Keys
import DocumentQuery.Json.Quoted
import DocumentQuery.Number.Style
import DocumentQuery.Text.Indented

/-!
# Writing JSON documents

Main definitions:

* `Json.write` — a document without any blank
* `Json.layout` — a document with one item or member a line
* `Json.compact`, `Json.pretty` — the two as strings

Parts of a text that have no value are written as `null`; no document that is
built in memory has such parts.
-/

namespace DocumentQuery.Json

def writeBool (b : Bool) : List Char :=
  if b then ['t', 'r', 'u', 'e'] else ['f', 'a', 'l', 's', 'e']

def writeNull : List Char := ['n', 'u', 'l', 'l']

/-- A number or word, a string, or an empty text for a container. -/
def writeLeaf : Json → List Char
  | .bool b => writeBool b
  | .int n => Digits.writeInt n
  | .real x => NumberStyle.json.write x
  | .str s => Quoted.write s
  | _ => writeNull

mutual

/-- A document without any blank. -/
def write : Json → List Char
  | .arr items => '[' :: writeItems items
  | .obj members => '{' :: writeMembers members
  | .torn members _ => '{' :: writeMembers members
  | j => writeLeaf j
termination_by structural j => j

/-- The items of an array and its closing bracket. -/
def writeItems : List Json → List Char
  | [] => [']']
  | j :: js => j.write ++ writeItemsTail js
termination_by structural js => js

/-- The items of an array after the first one. -/
def writeItemsTail : List Json → List Char
  | [] => [']']
  | j :: js => ',' :: j.write ++ writeItemsTail js
termination_by structural js => js

/-- The members of an object and its closing brace. -/
def writeMembers : List (String × Json) → List Char
  | [] => ['}']
  | (key, j) :: ms => Quoted.write key ++ ':' :: j.write ++ writeMembersTail ms
termination_by structural ms => ms

/-- The members of an object after the first one. -/
def writeMembersTail : List (String × Json) → List Char
  | [] => ['}']
  | (key, j) :: ms => ',' :: Quoted.write key ++ ':' :: j.write ++ writeMembersTail ms
termination_by structural ms => ms

end

/-- The text of a document without any blank. -/
def compact (j : Json) : String := String.ofList j.write

/-! ## One item or member a line -/

/-- Entries between brackets, each on a line of its own one level deeper. -/
def enclosed (opening closing : String) : List Layout → Layout
  | [] => [.text opening, .text closing]
  | entries =>
    [.text opening, .newline] ++
      Layout.nested (Layout.separated [.text ",", .newline] entries ++ [.newline]) ++
      [.text closing]

mutual

/-- A document with one item or member a line. -/
def layout : Json → Layout
  | .arr items => enclosed "[" "]" (layoutItems items)
  | .obj members => enclosed "\x7b" "\x7d" (layoutMembers members)
  | j => [.text (String.ofList j.writeLeaf)]
termination_by structural j => j

def layoutItems : List Json → List Layout
  | [] => []
  | j :: js => j.layout :: layoutItems js
termination_by structural js => js

def layoutMembers : List (String × Json) → List Layout
  | [] => []
  | (key, j) :: ms =>
    ([.text (String.ofList (Quoted.write key)), .text ": "] ++ j.layout) :: layoutMembers ms
termination_by structural ms => ms

end

/-- The text of a document with one item or member a line, two spaces a level. -/
def pretty (j : Json) : String := j.layout.render 2

end DocumentQuery.Json
