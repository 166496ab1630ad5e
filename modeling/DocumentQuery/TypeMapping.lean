import DocumentQuery.Json.Printer
import DocumentQuery.Value

/-!
# Type mappings

A type mapping says how the values of a type are rendered: as a literal inside
the text of a query, and as the payload that is sent beside it.

Main definitions:

* `Rendering`, `TypeMapping`
* `TypeMapping.literal`, `TypeMapping.payload`
* `MappingError` — a value that a mapping cannot render
-/

namespace DocumentQuery

inductive Rendering where
  /-- Plain JSON. -/
  | json
  /-- The name of an enumeration member. -/
  | enumMember
  /-- An array of numbers that is searched as a vector. -/
  | vector (vectorType : VectorType)
  /-- The description of a vector itself. -/
  | descriptor
deriving DecidableEq, Inhabited, Repr

structure TypeMapping where
  type : DataType
  rendering : Rendering
deriving DecidableEq, Inhabited, Repr

/-- The mapping of some type cannot render a value of another. -/
structure MappingError where
  mapping : DataType
  value : DataType
deriving DecidableEq, Repr

def MappingError.message (e : MappingError) : String :=
  s!"Type mapping for {e.mapping.display} cannot render a value of type {e.value.display}"

namespace TypeMapping

def json (type : DataType) : TypeMapping := ⟨type, .json⟩

def vector (type : DataType) (vectorType : VectorType) : TypeMapping := ⟨type, .vector vectorType⟩

/-- The description that a mapping for vectors carries. -/
def vectorType? (m : TypeMapping) : Option VectorType :=
  match m.rendering with
  | .vector v => some v
  | _ => none

def unexpected (m : TypeMapping) (v : Value) : MappingError := ⟨m.type, v.dataType⟩

/-- A description as an object literal. The number of dimensions is a property
of the stored vectors and no part of it. -/
def descriptorLiteral (v : VectorType) : String :=
  "\x7b'distanceFunction':'" ++ v.distanceFunction.name ++ "'" ++
    (match v.elementType with
     | some t => ", 'dataType':'" ++ t.name ++ "'"
     | none => "") ++
    "\x7d"

/-- A value inside the text of a query. Every mapping renders null. -/
def literal (m : TypeMapping) (v : Value) : Except MappingError String :=
  match m.rendering, v with
  | _, .null => .ok "null"
  | .json, v => .ok v.toJson.compact
  | .enumMember, .enum member => .ok ("\"" ++ member.name ++ "\"")
  | .vector _, .array items => .ok (Value.array items).toJson.compact
  | .descriptor, .vectorType v => .ok (descriptorLiteral v)
  | _, v => .error (m.unexpected v)

/-- A value beside the text of a query; objects in it are in key order. Every
mapping renders null. -/
def payload (m : TypeMapping) (v : Value) : Except MappingError Json :=
  match m.rendering, v with
  | _, .null => .ok .null
  | .json, v => .ok v.toJson.sortKeys
  | .enumMember, .enum member => .ok (.str member.name)
  | .vector _, .array items => .ok (Value.array items).toJson.sortKeys
  | .descriptor, .vectorType v => .ok v.toJson.sortKeys
  | _, v => .error (m.unexpected v)

end TypeMapping

end DocumentQuery
