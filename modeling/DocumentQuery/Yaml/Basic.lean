import DocumentQuery.Number.Digits

/-!
# YAML documents

`Yaml` is a node of a document: a mapping, a sequence or a scalar. A node may also
refer to another one by the number of its anchor. A scalar keeps its text; what a
scalar denotes that stands neither in quotes nor in a block is decided where it is
used.

Main definitions:

* `Yaml`, `Yaml.Document`
* `Yaml.Document.members?`, `text?`, `natural?` — a node where a mapping, a text or
  a number is wanted
* `Yaml.Document.field` — a field of a mapping, if it is there
-/

namespace DocumentQuery

inductive Yaml where
  | scalar (text : String) (isPlain : Bool)
  | sequence (items : List Yaml)
  | mapping (members : List (Yaml × Yaml))
  | reference (anchor : Nat)
deriving Inhabited, Repr

namespace Yaml

/-- What is written where nothing is written. -/
def empty : Yaml := .scalar "" true

/-! ## Numbers -/

/-- The number that digits of some radix denote, if there are any and it is
below 2^64. -/
def wordInRadix? (radix : Nat) (digits : List Char) : Option Nat := do
  let values ← digits.mapM Digits.hexValue?
  let n := values.foldl (fun n d => radix * n + d) 0
  if values ≠ [] ∧ values.all (· < radix) ∧ n < twoTo 64 then some n else none

/-- Decimal digits that denote a number. A leading zero makes them a text. -/
def decimal? : List Char → Option Nat
  | '0' :: _ :: _ => none
  | digits => Digits.word? digits

/-- The number that the text of a scalar denotes: decimal, or after its prefix
hexadecimal, octal or binary. -/
def unsigned? : List Char → Option Nat
  | '0' :: 'x' :: digits => wordInRadix? 16 digits
  | '0' :: 'o' :: digits => wordInRadix? 8 digits
  | '0' :: 'b' :: digits => wordInRadix? 2 digits
  | digits => decimal? digits

/-! ## Documents -/

structure Document where
  root : Yaml := .empty
  /-- The nodes with an anchor, by its number. -/
  anchored : List (Nat × Yaml) := []
deriving Inhabited, Repr

namespace Document

/-- A node itself, or the one that it refers to. -/
def node (d : Document) : Yaml → Yaml
  | .reference anchor => (d.anchored.lookup anchor).getD .empty
  | node => node

/-- The text of a scalar, whatever it looks like. -/
def text? (d : Document) (node : Yaml) : Option String :=
  match d.node node with
  | .scalar text _ => some text
  | _ => none

/-- A natural number below 2^64, with a plus sign or without. Only a plain scalar is
a number. -/
def natural? (d : Document) (node : Yaml) : Option Nat :=
  match d.node node with
  | .scalar text true =>
    match text.toList with
    | '+' :: digits => unsigned? digits
    | digits => unsigned? digits
  | _ => none

/-- The members of a mapping whose keys are texts. Nothing at all is a mapping
without members. -/
def members? (d : Document) (node : Yaml) : Option (List (String × Yaml)) :=
  match d.node node with
  | .mapping members => members.mapM fun (key, value) => (d.text? key).map (·, value)
  | .scalar "" true => some []
  | _ => none

end Document

/-- The field of a mapping under some key, read by `read`, or `otherwise` if it is
not there. A field that is there twice cannot be read. -/
def field {α : Type} (members : List (String × Yaml)) (key : String) (read : Yaml → Option α)
    (otherwise : α) : Option α :=
  match members.filter fun member => member.1 == key with
  | [] => some otherwise
  | [(_, node)] => read node
  | _ => none

end Yaml

end DocumentQuery
