import DocumentQuery.Document.Record
import DocumentQuery.Json.Reader

/-!
# Reading documents

The form of every document that this library knows, and the reader for it.

An expression is told by the tag `type`, the arguments of a raw fragment by the
tag `kind`. A type mapping carries its rendering among its own members, under the
tag `kind`. A value is taken for the first of these that it can be: a scalar, an
array, a vector description, an enumeration member, an object.

Main definitions:

* `Record.ofSelect` and the other records
* `ExpressionForm`, `ExpressionForm.build` — the forms of expressions
* `Json.read` — the reader
* `Json.Document.decode` — reads a whole text
* `Select.ofText`, `Select.ofJson` and the like
-/

namespace DocumentQuery

/-! ## Scalars -/

namespace Json

def readText : Json → Except DocumentError String
  | .str s => .ok s
  | j => .error j.unexpected

def readFlag : Json → Except DocumentError Bool
  | .bool b => .ok b
  | j => .error j.unexpected

/-- An integer that 64 bits hold without a sign. -/
def readNatural : Json → Except DocumentError Nat
  | .int n => if 0 ≤ n ∧ n < twoTo 64 then .ok n.toNat else .error .invalid
  | j => .error j.unexpected

/-- A document of any form; its objects are put in key order. -/
def readAny (j : Json) : Except DocumentError Json := do
  j.collect
  .ok j.sortKeys

end Json

/-! ## Types -/

namespace Node

/-- A type is a name; an array type is an object with the type of its elements. -/
def readDataType (r : Reading) (node : Node) : Except DocumentError DataType := do
  let v ← node.json.variant r
  match DataType.representatives.find? fun t => t.name == v.name with
  | none => .error (.unknownVariant v.name (DataType.representatives.map DataType.name))
  | some (.array _) =>
    match node.members with
    | (_, child) :: _ => do
      match ← child.read r .dataType with
      | .dataType element =>
        v.close
        .ok (.array element)
      | _ => .error .invalid
    | [] => .error .invalid
  | some t =>
    match v.payload with
    | some payload => payload.unitPayload r
    | none => .ok ()
    v.close
    .ok t

end Node

/-! ## Vectors, mappings and values -/

def Record.ofVectorType : Record where
  fields := [
    { key := "distanceFunction", kind := .distanceFunction },
    { key := "dimensions", kind := .natural },
    { key := "dataType", kind := .elementType, nullable := true, defaulted := true }]
  closed := true

def VectorType.ofSlots (slots : Slots) : Except DocumentError VectorType := do
  let distanceFunction ← slots.require "distanceFunction" Slot.distanceFunction?
  let dimensions ← slots.require "dimensions" Slot.natural?
  .ok { distanceFunction, dimensions := UInt64.ofNat dimensions
        elementType := slots.find? "dataType" Slot.elementType? }

/-- The tags of renderings. -/
inductive RenderingForm where
  | json
  | enumMember
  | vector
  | descriptor
deriving DecidableEq, Repr

def RenderingForm.name : RenderingForm → String
  | .json => "Json"
  | .enumMember => "Enum"
  | .vector => "Vector"
  | .descriptor => "VectorDescriptor"

instance : Enumerated RenderingForm where
  members := [.json, .enumMember, .vector, .descriptor]
  name := RenderingForm.name

def Record.ofVectorRendering : Record where
  fields := [{ key := "vector_type", kind := .vectorType }]

/-- The enumerations that a value may be a member of. -/
inductive EnumForm where
  | distanceFunction
  | vectorDataType
deriving DecidableEq, Repr

def EnumForm.name : EnumForm → String
  | .distanceFunction => "DistanceFunction"
  | .vectorDataType => "VectorDataType"

instance : Enumerated EnumForm where
  members := [.distanceFunction, .vectorDataType]
  name := EnumForm.name

/-- The member of an enumeration. -/
def EnumForm.member (form : EnumForm) (r : Reading) (j : Json) : Except DocumentError EnumMember :=
  match form with
  | .distanceFunction => (j.unitVariant r).map .distanceFunction
  | .vectorDataType => (j.unitVariant r).map .vectorDataType

namespace Node

def readVectorType (r : Reading) (node : Node) : Except DocumentError VectorType := do
  VectorType.ofSlots (← Record.ofVectorType.read r node)

/-- The type of a mapping, all other members being collected. -/
def readMappingType (r : Reading) : Option DataType → List (String × Child) →
    Except DocumentError (Option DataType)
  | found, [] => .ok found
  | found, (key, child) :: rest =>
    if key = "clr_type" then
      match found with
      | some _ => .error (.duplicateField key)
      | none => do
        match ← child.read r .dataType with
        | .dataType t => readMappingType r (some t) rest
        | _ => .error .invalid
    else do
      child.json.collect
      readMappingType r found rest

/-- The rendering that stands among the members of a mapping. -/
def readRendering (members : List (String × Child)) : Except DocumentError Rendering := do
  let others := members.filter fun (key, _) => key != "clr_type"
  let form : RenderingForm ←
    readTag .examined "kind" (.obj (others.map fun (key, child) => (key, child.json)))
  match form with
  | .json => .ok .json
  | .enumMember => .ok .enumMember
  | .descriptor => .ok .descriptor
  | .vector =>
    let slots ← Record.ofVectorRendering.readMembers .collected (some "kind") [] others
    (slots.require "vector_type" Slot.vectorType?).map .vector

/-- A mapping is an object; it cannot be given as an array. -/
def readMapping (r : Reading) (node : Node) : Except DocumentError TypeMapping :=
  match node.json with
  | .obj _ => do
    match ← readMappingType r none node.members with
    | none => .error (.missingField "clr_type")
    | some type => (readRendering node.members).map fun rendering => { type, rendering }
  | .torn _ tail => do
    let _ ← readMappingType r none node.members
    .error tail.unexpected
  | j => .error j.unexpected

/-- A member of an enumeration: the enumeration under `enum`, the member under
`value`, each once; all other keys are ignored. A member that stands before its
enumeration is collected until that is known. -/
def readEnumMember (node : Node) : Except DocumentError EnumMember :=
  match node.members.filter fun (key, _) => key == "enum" || key == "value" with
  | [("enum", form), ("value", member)] => do
    let form : EnumForm ← form.json.unitVariant .examined
    form.member .examined member.json
  | [("value", member), ("enum", form)] => do
    let form : EnumForm ← form.json.unitVariant .examined
    form.member .collected member.json
  | _ => .error .invalid

def readValues (children : List Child) : Except DocumentError (List Value) :=
  children.mapM fun child => do
    match ← child.read .examined .value with
    | .value v => .ok v
    | _ => .error .invalid

def readEntries (members : List (String × Child)) :
    Except DocumentError (List (String × Value)) := do
  let values ← readValues (members.map Prod.snd)
  .ok (Keys.ofList ((members.map Prod.fst).zip values))

/-- A value. An object that is neither a vector description nor an enumeration
member keeps its last member of each key, in key order. -/
def readValue (node : Node) : Except DocumentError Value := do
  node.json.collect
  match node.json with
  | .bool b => .ok (.bool b)
  | .int n =>
    if n < twoTo 63 then .ok (.int (Int64.ofInt n))
    else .ok (.float (UInt64.ofNat n.toNat).toFloat)
  | .real x => .ok (.float x.toFloat)
  | .str s => .ok (.string s)
  | .arr _ => (readValues node.items).map .array
  | .obj _ =>
    match node.readVectorType .examined with
    | .ok v => .ok (.vectorType v)
    | .error _ =>
      match node.readEnumMember with
      | .ok m => .ok (.enum m)
      | .error _ => (readEntries node.members).map .object
  | _ => .ok .null

end Node

/-! ## Selects and their parts -/

def Record.ofSelect : Record where
  fields := [
    { key := "is_distinct", kind := .flag, defaulted := true },
    { key := "projection", kind := .list .projection, defaulted := true },
    { key := "uses_single_value_projection", kind := .flag, defaulted := true },
    { key := "sources", kind := .list .source, defaulted := true },
    { key := "predicate", kind := .expression, nullable := true },
    { key := "orderings", kind := .list .sortKey, defaulted := true },
    { key := "offset", kind := .expression, nullable := true },
    { key := "limit", kind := .expression, nullable := true }]

def Select.ofSlots (slots : Slots) : Select where
  isDistinct := (slots.find? "is_distinct" Slot.flag?).getD false
  projection := slots.listD "projection" Slot.projection?
  singleValue := (slots.find? "uses_single_value_projection" Slot.flag?).getD false
  sources := slots.listD "sources" Slot.source?
  predicate := slots.find? "predicate" Slot.expression?
  orderings := slots.listD "orderings" Slot.sortKey?
  offset := slots.find? "offset" Slot.expression?
  limit := slots.find? "limit" Slot.expression?

def Record.ofProjection : Record where
  fields := [
    { key := "expression", kind := .expression },
    { key := "alias", kind := .text, defaulted := true },
    { key := "name", kind := .text }]

def Projection.ofSlots (slots : Slots) : Except DocumentError Projection := do
  let expression ← slots.require "expression" Slot.expression?
  let name ← slots.require "name" Slot.text?
  .ok { expression, aliasName := (slots.find? "alias" Slot.text?).getD "", name }

def Record.ofSource : Record where
  fields := [
    { key := "container", kind := .expression },
    { key := "alias", kind := .text, nullable := true },
    { key := "with_in", kind := .flag, defaulted := true }]

def Source.ofSlots (slots : Slots) : Except DocumentError Source := do
  let container ← slots.require "container" Slot.expression?
  .ok { container, aliasName := slots.find? "alias" Slot.text?
        eachItem := (slots.find? "with_in" Slot.flag?).getD false }

def Record.ofSortKey : Record where
  fields := [
    { key := "expression", kind := .expression },
    { key := "is_ascending", kind := .flag, defaulted := true }]

def SortKey.ofSlots (slots : Slots) : Except DocumentError SortKey := do
  let expression ← slots.require "expression" Slot.expression?
  .ok { expression, isAscending := (slots.find? "is_ascending" Slot.flag?).getD true }

/-! ## Queries and options -/

def Record.ofParameter : Record where
  fields := [{ key := "name", kind := .text }, { key := "value", kind := .any }]

def Parameter.ofSlots (slots : Slots) : Except DocumentError Parameter := do
  let name ← slots.require "name" Slot.text?
  let value ← slots.require "value" Slot.any?
  .ok { name, value }

def Record.ofQuery : Record where
  fields := [
    { key := "query", kind := .text },
    { key := "parameters", kind := .list .parameter }]

def Query.ofSlots (slots : Slots) : Except DocumentError Query := do
  let text ← slots.require "query" Slot.text?
  let parameters ← slots.require "parameters" (Slot.list? Slot.parameter?)
  .ok { text, parameters }

def Record.ofOptions : Record where
  fields := [{ key := "indent_size", kind := .natural, defaulted := true }]

def GeneratorOptions.ofSlots (slots : Slots) : GeneratorOptions where
  indentSize := (slots.find? "indent_size" Slot.natural?).getD ({} : GeneratorOptions).indentSize

/-! ## Arguments of raw fragments -/

inductive ArgumentsForm where
  | parameter
  | constant
deriving DecidableEq, Repr

namespace ArgumentsForm

def name : ArgumentsForm → String
  | .parameter => "Parameter"
  | .constant => "Constant"

instance : Enumerated ArgumentsForm where
  members := [.parameter, .constant]
  name := name

def record : ArgumentsForm → Record
  | .parameter => { fields := [{ key := "name", kind := .text }] }
  | .constant => { fields := [{ key := "value", kind := .value }] }

def build (form : ArgumentsForm) (slots : Slots) : Except DocumentError RawArguments :=
  match form with
  | .parameter => (slots.require "name" Slot.text?).map .parameter
  | .constant => (slots.require "value" Slot.value?).map .constant

end ArgumentsForm

/-! ## Expressions -/

inductive ExpressionForm where
  | select
  | objectReference
  | scalarReference
  | keyAccess
  | objectAccess
  | entityProjection
  | objectArrayProjection
  | binary
  | unary
  | conditional
  | function
  | constant
  | parameter
  | isIn
  | arrayConstant
  | exists
  | array
  | scalarSubquery
  | fromSql
deriving DecidableEq, Repr

namespace ExpressionForm

def name : ExpressionForm → String
  | .select => "Select"
  | .objectReference => "ObjectReference"
  | .scalarReference => "ScalarReference"
  | .keyAccess => "KeyAccess"
  | .objectAccess => "ObjectAccess"
  | .entityProjection => "EntityProjection"
  | .objectArrayProjection => "ObjectArrayProjection"
  | .binary => "Binary"
  | .unary => "Unary"
  | .conditional => "Conditional"
  | .function => "Function"
  | .constant => "Constant"
  | .parameter => "Parameter"
  | .isIn => "In"
  | .arrayConstant => "ArrayConstant"
  | .exists => "Exists"
  | .array => "Array"
  | .scalarSubquery => "ScalarSubquery"
  | .fromSql => "FromSql"

instance : Enumerated ExpressionForm where
  members := [
    .select, .objectReference, .scalarReference, .keyAccess, .objectAccess,
    .entityProjection, .objectArrayProjection, .binary, .unary, .conditional,
    .function, .constant, .parameter, .isIn, .arrayConstant, .exists, .array,
    .scalarSubquery, .fromSql]
  name := name

def typeField : Field := { key := "data_type", kind := .dataType }

def mappingField : Field := { key := "type_mapping", kind := .mapping, nullable := true }

/-- What an expression holds beside its tag. -/
def record : ExpressionForm → Record
  | .select => .ofSelect
  | .objectReference => { fields := [{ key := "name", kind := .text }] }
  | .scalarReference => { fields := [{ key := "name", kind := .text }, typeField] }
  | .keyAccess =>
    { fields := [{ key := "object", kind := .expression },
        { key := "property_name", kind := .text }, typeField, mappingField] }
  | .objectAccess =>
    { fields := [{ key := "object", kind := .expression },
        { key := "property_name", kind := .text }] }
  | .entityProjection => { fields := [{ key := "access", kind := .expression }] }
  | .objectArrayProjection => { fields := [{ key := "access", kind := .expression }] }
  | .binary =>
    { fields := [{ key := "operator", kind := .binaryOperator },
        { key := "left", kind := .expression }, { key := "right", kind := .expression },
        typeField, mappingField] }
  | .unary =>
    { fields := [{ key := "operator", kind := .unaryOperator },
        { key := "operand", kind := .expression }, typeField, mappingField] }
  | .conditional =>
    { fields := [{ key := "test", kind := .expression }, { key := "if_true", kind := .expression },
        { key := "if_false", kind := .expression }, typeField, mappingField] }
  | .function =>
    { fields := [{ key := "name", kind := .text },
        { key := "arguments", kind := .list .expression, defaulted := true },
        typeField, mappingField] }
  | .constant => { fields := [{ key := "value", kind := .value }, typeField, mappingField] }
  | .parameter => { fields := [{ key := "name", kind := .text }, typeField, mappingField] }
  | .isIn =>
    { fields := [{ key := "item", kind := .expression },
        { key := "values", kind := .list .expression, nullable := true },
        { key := "values_parameter", kind := .text, nullable := true }] }
  | .arrayConstant => { fields := [{ key := "items", kind := .list .expression }] }
  | .exists => { fields := [{ key := "subquery", kind := .select }] }
  | .array => { fields := [{ key := "subquery", kind := .select }] }
  | .scalarSubquery => { fields := [{ key := "subquery", kind := .select }] }
  | .fromSql =>
    { fields := [{ key := "sql", kind := .text }, { key := "arguments", kind := .rawArguments }] }

def mappingOf (slots : Slots) : Option TypeMapping := slots.find? "type_mapping" Slot.mapping?

/-- An expression from what was read of it; of several missing fields the first
is reported. -/
def build (form : ExpressionForm) (slots : Slots) : Except DocumentError Expression :=
  match form with
  | .select => .ok (.select (Select.ofSlots slots))
  | .objectReference => (slots.require "name" Slot.text?).map .objectReference
  | .scalarReference => do
    let name ← slots.require "name" Slot.text?
    let type ← slots.require "data_type" Slot.dataType?
    .ok (.scalarReference name type)
  | .keyAccess => do
    let object ← slots.require "object" Slot.expression?
    let property ← slots.require "property_name" Slot.text?
    let type ← slots.require "data_type" Slot.dataType?
    .ok (.keyAccess object property type (mappingOf slots))
  | .objectAccess => do
    let object ← slots.require "object" Slot.expression?
    let property ← slots.require "property_name" Slot.text?
    .ok (.objectAccess object property)
  | .entityProjection => (slots.require "access" Slot.expression?).map .entityProjection
  | .objectArrayProjection => (slots.require "access" Slot.expression?).map .objectArrayProjection
  | .binary => do
    let operator ← slots.require "operator" Slot.binaryOperator?
    let left ← slots.require "left" Slot.expression?
    let right ← slots.require "right" Slot.expression?
    let type ← slots.require "data_type" Slot.dataType?
    .ok (.binary operator left right type (mappingOf slots))
  | .unary => do
    let operator ← slots.require "operator" Slot.unaryOperator?
    let operand ← slots.require "operand" Slot.expression?
    let type ← slots.require "data_type" Slot.dataType?
    .ok (.unary operator operand type (mappingOf slots))
  | .conditional => do
    let test ← slots.require "test" Slot.expression?
    let ifTrue ← slots.require "if_true" Slot.expression?
    let ifFalse ← slots.require "if_false" Slot.expression?
    let type ← slots.require "data_type" Slot.dataType?
    .ok (.conditional test ifTrue ifFalse type (mappingOf slots))
  | .function => do
    let name ← slots.require "name" Slot.text?
    let type ← slots.require "data_type" Slot.dataType?
    .ok (.function name (slots.listD "arguments" Slot.expression?) type (mappingOf slots))
  | .constant => do
    let value ← slots.require "value" Slot.value?
    let type ← slots.require "data_type" Slot.dataType?
    .ok (.constant value type (mappingOf slots))
  | .parameter => do
    let name ← slots.require "name" Slot.text?
    let type ← slots.require "data_type" Slot.dataType?
    .ok (.parameter name type (mappingOf slots))
  | .isIn => do
    let item ← slots.require "item" Slot.expression?
    .ok (.isIn item (slots.find? "values" (Slot.list? Slot.expression?))
      (slots.find? "values_parameter" Slot.text?))
  | .arrayConstant =>
    (slots.require "items" (Slot.list? Slot.expression?)).map .arrayConstant
  | .exists => (slots.require "subquery" Slot.select?).map .exists
  | .array => (slots.require "subquery" Slot.select?).map .array
  | .scalarSubquery => (slots.require "subquery" Slot.select?).map .scalarSubquery
  | .fromSql => do
    let sql ← slots.require "sql" Slot.text?
    let arguments ← slots.require "arguments" Slot.rawArguments?
    .ok (.fromSql sql arguments)

end ExpressionForm

/-! ## The reader -/

namespace Node

def readExpression (r : Reading) (node : Node) : Except DocumentError Expression := do
  let form : ExpressionForm ← readTag r "type" node.json
  form.build (← form.record.readBeside "type" node)

def readRawArguments (r : Reading) (node : Node) : Except DocumentError RawArguments := do
  let form : ArgumentsForm ← readTag r "kind" node.json
  form.build (← form.record.readBeside "kind" node)

def readList (r : Reading) (kind : Kind) (node : Node) : Except DocumentError (List Slot) :=
  match node.json with
  | .arr _ => node.items.mapM fun child => child.read r kind
  | j => .error j.unexpected

/-- Values under keys of any name; the last value of a repeated key counts. -/
def readKeyedValues (node : Node) : Except DocumentError (List (String × Value)) :=
  match node.json with
  | .obj _ => readEntries node.members
  | .torn _ tail => do
    let _ ← readEntries node.members
    .error tail.unexpected
  | j => .error j.unexpected

/-- Reads a node as a part of some kind. -/
def read (node : Node) (r : Reading) : Kind → Except DocumentError Slot
  | .text => node.json.readText.map .text
  | .flag => node.json.readFlag.map .flag
  | .natural => node.json.readNatural.map .natural
  | .any => node.json.readAny.map .any
  | .dataType => (node.readDataType r).map .dataType
  | .distanceFunction => (node.json.unitVariant r).map .distanceFunction
  | .elementType => (node.json.unitVariant r).map .elementType
  | .vectorType => (node.readVectorType r).map .vectorType
  | .value => node.readValue.map .value
  | .mapping => (node.readMapping r).map .mapping
  | .binaryOperator => (node.json.unitVariant r).map .binaryOperator
  | .unaryOperator => (node.json.unitVariant r).map .unaryOperator
  | .rawArguments => (node.readRawArguments r).map .rawArguments
  | .expression => (node.readExpression r).map .expression
  | .select => (Record.ofSelect.read r node).map fun slots => .select (Select.ofSlots slots)
  | .projection => do return .projection (← Projection.ofSlots (← Record.ofProjection.read r node))
  | .source => do return .source (← Source.ofSlots (← Record.ofSource.read r node))
  | .sortKey => do return .sortKey (← SortKey.ofSlots (← Record.ofSortKey.read r node))
  | .parameter => do return .parameter (← Parameter.ofSlots (← Record.ofParameter.read r node))
  | .query => do return .query (← Query.ofSlots (← Record.ofQuery.read r node))
  | .options =>
    (Record.ofOptions.read r node).map fun slots => .options (GeneratorOptions.ofSlots slots)
  | .list kind => (node.readList r kind).map .list
  | .values => node.readKeyedValues.map .values

end Node

namespace Json

mutual

/-- Reads a document as a part of some kind. -/
def read : Json → Reading → Kind → Except DocumentError Slot
  | .arr items => Node.read { json := .arr items, items := childrenOf items }
  | .obj members => Node.read { json := .obj members, members := keyedChildrenOf members }
  | .torn members tail =>
    Node.read { json := .torn members tail, members := keyedChildrenOf members }
  | j => Node.read { json := j }
termination_by structural j => j

/-- Items with their readers. -/
def childrenOf : List Json → List Child
  | [] => []
  | j :: js => ⟨j, j.read⟩ :: childrenOf js
termination_by structural js => js

/-- Members with their readers. -/
def keyedChildrenOf : List (String × Json) → List (String × Child)
  | [] => []
  | (key, j) :: ms => (key, ⟨j, j.read⟩) :: keyedChildrenOf ms
termination_by structural ms => ms

end

/-- Reads a document of some kind as the slot that `pick` looks for. -/
def readAs {α : Type} (j : Json) (r : Reading) (kind : Kind) (pick : Slot → Option α) :
    Except DocumentError α := do
  match pick (← j.read r kind) with
  | some a => .ok a
  | none => .error .invalid

namespace Document

/-- Reads a whole text; what follows the document comes last. -/
def decode {α : Type} (d : Document) (kind : Kind) (pick : Slot → Option α) :
    Except DocumentError α := do
  let a ← d.root.readAs .text kind pick
  match d.trailing with
  | some flaw => .error flaw.met
  | none => .ok a

end Document

/-- Reads a text as a document of some kind. -/
def decodeText {α : Type} (text : String) (kind : Kind) (pick : Slot → Option α) :
    Except DocumentError α :=
  (Document.ofText text).decode kind pick

end Json

/-! ## Documents of this library -/

/-- The select that a document in memory describes. -/
def Select.ofJson (j : Json) : Except DocumentError Select :=
  j.readAs .memory .select Slot.select?

/-- The select that a text describes. -/
def Select.ofText (text : String) : Except DocumentError Select :=
  Json.decodeText text .select Slot.select?

/-- The expression that a document in memory describes. -/
def Expression.ofJson (j : Json) : Except DocumentError Expression :=
  j.readAs .memory .expression Slot.expression?

/-- The value that a document in memory describes. -/
def Value.ofJson (j : Json) : Except DocumentError Value :=
  j.readAs .memory .value Slot.value?

/-- The values by name that a text describes. -/
def valuesOfText (text : String) : Except DocumentError (List (String × Value)) :=
  Json.decodeText text .values Slot.values?

end DocumentQuery
