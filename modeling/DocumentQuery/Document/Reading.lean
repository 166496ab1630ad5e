import DocumentQuery.Document.Error
import DocumentQuery.Enumerated

/-!
# Reading the parts of a document

How a part of a document is read depends on how it got to its reader. Most
parts are read where they stand. A part whose form is told by a tag is collected
first, since the tag may stand behind the rest; and what may be one of several
things is examined once for each of them.

Main definitions:

* `Reading` and its four values
* `Json.variant`, `Json.unitVariant` — a member of an enumeration
* `readTag` — the tag of a part whose form is told by one
-/

namespace DocumentQuery

structure Reading where
  /-- The part is read while the text arrives, so that a variant of the wrong
  shape, or more items than there are fields, is a fault of the text. -/
  fromText : Bool
  /-- A tag may be given by its position instead of its name. -/
  tagByPosition : Bool
  /-- An empty object stands for the missing payload of a variant, as null does. -/
  emptyIsUnit : Bool
deriving DecidableEq, Repr

namespace Reading

/-- Straight from a text. -/
def text : Reading := ⟨true, false, false⟩

/-- From a document in memory. -/
def memory : Reading := ⟨false, false, false⟩

/-- From a part that was collected to find its tag. -/
def collected : Reading := ⟨false, true, true⟩

/-- From a part that is examined for one of several things that it may be. -/
def examined : Reading := ⟨false, true, false⟩

/-- What is wrong with a variant of the wrong shape, or with surplus items. -/
def misshapen (r : Reading) : DocumentError := if r.fromText then .malformed else .invalid

end Reading

/-! ## Variants -/

/-- A variant as written: its name, its payload, and what is wrong behind the
payload. -/
structure Variant where
  name : String
  payload : Option Json := none
  close : Except DocumentError Unit := .ok ()

namespace Json

/-- A variant with a payload, when `more` members follow, or the text goes wrong at
`tail`. A text goes wrong only after the payload; in memory the whole object is at
hand. -/
def variantOf (r : Reading) (name : String) (payload : Json) (more : List (String × Json))
    (tail : Option Json) : Except DocumentError Variant :=
  let close : Except DocumentError Unit :=
    match more, tail with
    | [], none => .ok ()
    | [], some (.broken flaw) => .error flaw.met
    | _, _ => .error r.misshapen
  if r.fromText then .ok { name, payload := some payload, close }
  else close.map fun () => { name, payload := some payload }

/-- A name alone, or an object with the name as its only key. -/
def variant (r : Reading) : Json → Except DocumentError Variant
  | .str name => .ok { name }
  | .obj [] => .error r.misshapen
  | .obj ((name, payload) :: more) => variantOf r name payload more none
  | .torn [] (.unkeyed key _) => .error key.unexpected
  | .torn [] tail => .error tail.unexpected
  | .torn ((name, payload) :: more) tail => variantOf r name payload more (some tail)
  | .broken flaw => .error (if r.fromText then flaw.atVariant else flaw.met)
  | _ => .error r.misshapen

/-- The payload of a variant that has none. -/
def unitPayload (r : Reading) : Json → Except DocumentError Unit
  | .null => .ok ()
  | .obj [] => if r.emptyIsUnit then .ok () else .error .invalid
  | j => .error j.unexpected

/-- A member of an enumeration without payloads. -/
def unitVariant {α : Type} [Enumerated α] (r : Reading) (j : Json) : Except DocumentError α := do
  let v ← j.variant r
  match (Enumerated.named? v.name : Option α) with
  | none => .error (.unknownVariant v.name (Enumerated.names α))
  | some a =>
    match v.payload with
    | some payload => payload.unitPayload r
    | none => .ok ()
    v.close
    .ok a

end Json

/-! ## Tags -/

section Tags

variable {α : Type} [Enumerated α]

/-- A tag by its name or, where that is possible, by its position. -/
def tagOf (r : Reading) : Json → Except DocumentError α
  | .str name =>
    match (Enumerated.named? name : Option α) with
    | some a => .ok a
    | none => .error (.unknownVariant name (Enumerated.names α))
  | .int n =>
    if r.tagByPosition ∧ 0 ≤ n then
      match (Enumerated.at? n.toNat : Option α) with
      | some a => .ok a
      | none => .error .invalid
    else .error .invalid
  | j => .error j.unexpected

/-- The tag among the members of an object, all others being collected. -/
def tagAmong (r : Reading) (key : String) : Option α → List (String × Json) →
    Except DocumentError (Option α)
  | found, [] => .ok found
  | found, (k, j) :: ms =>
    if k = key then
      match found with
      | some _ => .error (.duplicateField key)
      | none => do
        let a ← tagOf r j
        tagAmong r key (some a) ms
    else do
      j.collect
      tagAmong r key found ms

/-- The tag of a part: the member under `key`, or the first item. -/
def readTag (r : Reading) (key : String) : Json → Except DocumentError α
  | .obj members => do
    match ← tagAmong r key none members with
    | some a => .ok a
    | none => .error (.missingField key)
  | .torn members tail => do
    let _ ← (tagAmong r key none members : Except DocumentError (Option α))
    .error tail.unexpected
  | .arr [] => .error (.missingField key)
  | .arr (j :: js) => do
    let a ← tagOf r j
    (Json.arr js).collect
    .ok a
  | j => .error j.unexpected

end Tags

end DocumentQuery
