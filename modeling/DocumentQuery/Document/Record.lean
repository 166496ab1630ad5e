import DocumentQuery.Document.Reading
import DocumentQuery.Expression.Basic
import DocumentQuery.Query.Basic

/-!
# Records of documents

Most parts of a document are records: objects with known fields. A record may
also be given as the array of its fields in their order. What a field holds is
told by its `Kind`; what was read for it is kept in a `Slot`.

The readers of this module do not recurse into documents. They work on a `Node`,
where every part below comes with its own reader.

Main definitions:

* `Kind`, `Slot`, `Field`, `Record`
* `Node`, `Child`
* `Record.read` — the slots of a record
-/

namespace DocumentQuery

/-- What a part of a document holds. -/
inductive Kind where
  | text
  | flag
  | natural
  /-- A document of any form. -/
  | any
  | dataType
  | distanceFunction
  | elementType
  | vectorType
  | value
  | mapping
  | binaryOperator
  | unaryOperator
  | rawArguments
  | expression
  | select
  | projection
  | source
  | sortKey
  | parameter
  | query
  | options
  | list (kind : Kind)
  /-- An object with values under keys of any name. -/
  | values
deriving DecidableEq, Repr

/-- What was read for a part of a document. -/
inductive Slot where
  /-- Null in a field that may be null. -/
  | absent
  | text (s : String)
  | flag (b : Bool)
  | natural (n : Nat)
  | any (j : Json)
  | dataType (t : DataType)
  | distanceFunction (f : DistanceFunction)
  | elementType (t : ElementType)
  | vectorType (v : VectorType)
  | value (v : Value)
  | mapping (m : TypeMapping)
  | binaryOperator (o : BinaryOperator)
  | unaryOperator (o : UnaryOperator)
  | rawArguments (a : RawArguments)
  | expression (e : Expression)
  | select (s : Select)
  | projection (p : Projection)
  | source (s : Source)
  | sortKey (k : SortKey)
  | parameter (p : Parameter)
  | query (q : Query)
  | options (o : GeneratorOptions)
  | list (slots : List Slot)
  | values (entries : List (String × Value))

namespace Slot

def text? : Slot → Option String
  | .text s => some s
  | _ => none

def flag? : Slot → Option Bool
  | .flag b => some b
  | _ => none

def natural? : Slot → Option Nat
  | .natural n => some n
  | _ => none

def any? : Slot → Option Json
  | .any j => some j
  | _ => none

def dataType? : Slot → Option DataType
  | .dataType t => some t
  | _ => none

def distanceFunction? : Slot → Option DistanceFunction
  | .distanceFunction f => some f
  | _ => none

def elementType? : Slot → Option ElementType
  | .elementType t => some t
  | _ => none

def vectorType? : Slot → Option VectorType
  | .vectorType v => some v
  | _ => none

def value? : Slot → Option Value
  | .value v => some v
  | _ => none

def mapping? : Slot → Option TypeMapping
  | .mapping m => some m
  | _ => none

def binaryOperator? : Slot → Option BinaryOperator
  | .binaryOperator o => some o
  | _ => none

def unaryOperator? : Slot → Option UnaryOperator
  | .unaryOperator o => some o
  | _ => none

def rawArguments? : Slot → Option RawArguments
  | .rawArguments a => some a
  | _ => none

def expression? : Slot → Option Expression
  | .expression e => some e
  | _ => none

def select? : Slot → Option Select
  | .select s => some s
  | _ => none

def projection? : Slot → Option Projection
  | .projection p => some p
  | _ => none

def source? : Slot → Option Source
  | .source s => some s
  | _ => none

def sortKey? : Slot → Option SortKey
  | .sortKey k => some k
  | _ => none

def parameter? : Slot → Option Parameter
  | .parameter p => some p
  | _ => none

def query? : Slot → Option Query
  | .query q => some q
  | _ => none

def options? : Slot → Option GeneratorOptions
  | .options o => some o
  | _ => none

def values? : Slot → Option (List (String × Value))
  | .values entries => some entries
  | _ => none

/-- The members of a list, each of one form. -/
def list? {α : Type} (item? : Slot → Option α) : Slot → Option (List α)
  | .list slots => slots.mapM item?
  | _ => none

end Slot

/-! ## Nodes -/

/-- A part of a document with a reader for it. -/
structure Child where
  json : Json
  read : Reading → Kind → Except DocumentError Slot

/-- A document and the parts directly below it. -/
structure Node where
  json : Json
  items : List Child := []
  members : List (String × Child) := []

/-! ## Fields -/

structure Field where
  key : String
  kind : Kind
  /-- The field may be null or missing. -/
  nullable : Bool := false
  /-- The field may be missing. -/
  defaulted : Bool := false
deriving DecidableEq, Repr

structure Record where
  fields : List Field
  /-- No other fields are tolerated. -/
  closed : Bool := false
deriving DecidableEq, Repr

/-- What was read of a record so far, by field. -/
abbrev Slots := List (String × Slot)

namespace Field

/-- Reads what stands in a field. -/
def read (field : Field) (r : Reading) (child : Child) : Except DocumentError Slot :=
  match field.nullable, child.json with
  | true, .null => .ok .absent
  | true, .broken .endedInNull => .error .ended
  | _, _ => child.read r field.kind

end Field

namespace Record

def field? (record : Record) (key : String) : Option Field :=
  record.fields.find? fun field => field.key == key

/-- Reads members in their order. The member under the key `tag` has been seen
to already. -/
def readMembers (record : Record) (r : Reading) (tag : Option String) (seen : Slots) :
    List (String × Child) → Except DocumentError Slots
  | [] => .ok seen
  | (key, child) :: rest =>
    if tag = some key then record.readMembers r tag seen rest
    else
      match record.field? key with
      | some field =>
        if (seen.lookup key).isSome then .error (.duplicateField key)
        else do
          let slot ← field.read r child
          record.readMembers r tag (seen ++ [(key, slot)]) rest
      | none =>
        if record.closed then .error (.unknownField key (record.fields.map Field.key))
        else do
          child.json.pass
          record.readMembers r tag seen rest

/-- Reads items as the fields in their order. Fields at the end may be missing if
they have a default. A text that breaks off directly behind the last field does
so where the array should be closed. -/
def readItems (r : Reading) (seen : Slots) : List Field → List Child →
    Except DocumentError Slots
  | [], [] => .ok seen
  | [], [child] =>
    match child.json with
    | .broken flaw => .error flaw.met
    | _ => .error r.misshapen
  | [], _ :: _ :: _ => .error r.misshapen
  | field :: fields, [] =>
    if field.defaulted then readItems r seen fields [] else .error .invalid
  | field :: fields, child :: rest => do
    let slot ← field.read r child
    readItems r (seen ++ [(field.key, slot)]) fields rest

/-- Reads a record. -/
def read (record : Record) (r : Reading) (node : Node) : Except DocumentError Slots :=
  match node.json with
  | .obj _ => record.readMembers r none [] node.members
  | .torn _ tail => do
    let _ ← record.readMembers r none [] node.members
    .error tail.unexpected
  | .arr _ => readItems r [] record.fields node.items
  | j => .error j.unexpected

/-- Reads what a tagged record holds beside its tag. -/
def readBeside (record : Record) (tag : String) (node : Node) : Except DocumentError Slots :=
  match node.json with
  | .obj _ => record.readMembers .collected (some tag) [] node.members
  | .arr _ => readItems .collected [] record.fields (node.items.drop 1)
  | j => .error j.unexpected

end Record

namespace Slots

/-- What was read for a field, if it is there and not null. -/
def find? {α : Type} (slots : Slots) (key : String) (pick : Slot → Option α) : Option α :=
  (slots.lookup key).bind pick

/-- What was read for a field that has to be there. -/
def require {α : Type} (slots : Slots) (key : String) (pick : Slot → Option α) :
    Except DocumentError α :=
  match slots.find? key pick with
  | some a => .ok a
  | none => .error (.missingField key)

/-- What was read for a field that holds a list; empty if it is not there. -/
def listD {α : Type} (slots : Slots) (key : String) (pick : Slot → Option α) : List α :=
  (slots.find? key (Slot.list? pick)).getD []

end Slots

end DocumentQuery
