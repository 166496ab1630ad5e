import DocumentQuery.Json.Keys
import DocumentQuery.Vector

/-!
# Values

`Value` is a constant of a query or the value supplied for a parameter.

Main definitions:

* `Value`, `EnumMember`
* `Value.Ordered` — the members of every object ascend by key
* `Value.dataType` — the type that a value shows by itself
* `Value.toJson` — a value as a document
-/

namespace DocumentQuery

/-- A named member of one of the enumerations of vector search. -/
inductive EnumMember where
  | distanceFunction (f : DistanceFunction)
  | vectorDataType (t : ElementType)
deriving DecidableEq, Inhabited, Repr

namespace EnumMember

def name : EnumMember → String
  | .distanceFunction f => f.name
  | .vectorDataType t => t.name

/-- The enumeration that the member belongs to. -/
def dataType : EnumMember → DataType
  | .distanceFunction _ => .distanceFunction
  | .vectorDataType _ => .vectorDataType

end EnumMember

inductive Value where
  | null
  | bool (b : Bool)
  | int (n : Int64)
  | float (x : Float)
  | string (s : String)
  | array (items : List Value)
  | vectorType (v : VectorType)
  | enum (m : EnumMember)
  /-- The members of an object in ascending order of their keys. -/
  | object (members : List (String × Value))
deriving Inhabited, Repr

namespace Value

mutual

/-- The members of every object ascend by key. -/
def Ordered : Value → Prop
  | .array items => OrderedItems items
  | .object members => Keys.Ascending members ∧ OrderedMembers members
  | _ => True
termination_by structural v => v

def OrderedItems : List Value → Prop
  | [] => True
  | v :: vs => v.Ordered ∧ OrderedItems vs
termination_by structural vs => vs

def OrderedMembers : List (String × Value) → Prop
  | [] => True
  | (_, v) :: ms => v.Ordered ∧ OrderedMembers ms
termination_by structural ms => ms

end

/-- The type that a value shows by itself; that of an array is taken from its
first item. -/
def dataType : Value → DataType
  | .null => .null
  | .bool _ => .bool
  | .int _ => .int64
  | .float _ => .float64
  | .string _ => .string
  | .array [] => .array .unknown
  | .array (v :: _) => .array v.dataType
  | .vectorType _ => .vectorType
  | .enum m => m.dataType
  | .object _ => .object
termination_by structural v => v

end Value

/-! ## Values as documents -/

/-- An element type that is not given is left out. -/
def VectorType.toJson (v : VectorType) : Json :=
  .obj <|
    [("distanceFunction", .str v.distanceFunction.name),
     ("dimensions", .int v.dimensions.toNat)] ++
    match v.elementType with
    | some t => [("dataType", .str t.name)]
    | none => []

/-- The enumeration is written beside the member. -/
def EnumMember.toJson (m : EnumMember) : Json :=
  .obj [("enum", .str m.dataType.name), ("value", .str m.name)]

namespace Value

mutual

/-- A double that is no number has the document of null. -/
def toJson : Value → Json
  | .null => .null
  | .bool b => .bool b
  | .int n => .int n.toInt
  | .float x =>
    match FiniteDouble.ofFloat? x with
    | some x => .real x
    | none => .null
  | .string s => .str s
  | .array items => .arr (itemsToJson items)
  | .vectorType v => v.toJson
  | .enum m => m.toJson
  | .object members => .obj (membersToJson members)
termination_by structural v => v

def itemsToJson : List Value → List Json
  | [] => []
  | v :: vs => v.toJson :: itemsToJson vs
termination_by structural vs => vs

def membersToJson : List (String × Value) → List (String × Json)
  | [] => []
  | (key, v) :: ms => (key, v.toJson) :: membersToJson ms
termination_by structural ms => ms

end

end Value

end DocumentQuery
