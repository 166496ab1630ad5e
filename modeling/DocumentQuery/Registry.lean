import DocumentQuery.TypeMapping

/-!
# The registry of type mappings

A registry finds the mapping of a type. Arrays need no entry of their own: an
array whose elements are rendered as JSON is rendered as JSON.

Main definitions:

* `Registry.builtin`, `Registry.register`
* `Registry.find?`, `Registry.require`
* `Registry.vectorMapping` — the mapping of a type that is searched as a vector
* `RegistryError`
-/

namespace DocumentQuery

/-- Why a type cannot be searched as a vector. -/
inductive VectorRefusal where
  | notArray
  | notNumeric (element : DataType)
deriving DecidableEq, Repr

def VectorRefusal.message : VectorRefusal → String
  | .notArray => "vectors must be arrays"
  | .notNumeric element => s!"element type {element.display} is not numeric"

inductive RegistryError where
  | mappingNotFound (type : DataType)
  | invalidVectorType (type : DataType) (refusal : VectorRefusal)
deriving DecidableEq, Repr

def RegistryError.message : RegistryError → String
  | .mappingNotFound type => s!"No type mapping found for type {type.display}"
  | .invalidVectorType type refusal =>
    s!"Type {type.display} cannot be used as a vector: {refusal.message}"

/-- Mappings by type, the one registered last in front. -/
structure Registry where
  entries : List (DataType × TypeMapping)

namespace Registry

/-- Registers a mapping for its type, in place of an earlier one. -/
def register (r : Registry) (m : TypeMapping) : Registry := ⟨(m.type, m) :: r.entries⟩

/-- Types that are rendered as JSON. -/
def plainTypes : List DataType := [
  .bool, .int8, .int16, .int32, .int64, .uint8, .uint16, .uint32, .uint64,
  .float16, .float32, .float64, .decimal, .string, .guid, .dateTime, .object, .null]

def builtinMappings : List TypeMapping :=
  plainTypes.map TypeMapping.json ++
    [⟨.distanceFunction, .enumMember⟩, ⟨.vectorDataType, .enumMember⟩, ⟨.vectorType, .descriptor⟩]

/-- The registry before anything is added to it. -/
def builtin : Registry := builtinMappings.foldl register ⟨[]⟩

/-- The mapping registered for exactly this type. -/
def registered? (r : Registry) (type : DataType) : Option TypeMapping := r.entries.lookup type

/-- The mapping of a type. An array without an entry is rendered as JSON if its
elements are, or if they are of no known type. -/
def find? (r : Registry) : DataType → Option TypeMapping
  | .array .unknown =>
    (r.registered? (.array .unknown)).or (some (.json (.array .unknown)))
  | .array element =>
    (r.registered? (.array element)).or <|
      (r.find? element).bind fun m =>
        if m.rendering = .json then some (.json (.array element)) else none
  | type => r.registered? type
termination_by structural type => type

def require (r : Registry) (type : DataType) : Except RegistryError TypeMapping :=
  match r.find? type with
  | some m => .ok m
  | none => .error (.mappingNotFound type)

/-- The mapping of a type whose values are searched as vectors: an array of
numbers. What is registered for the type plays no part. -/
def vectorMapping (type : DataType) (vectorType : VectorType) :
    Except RegistryError TypeMapping :=
  match type.element? with
  | none => .error (.invalidVectorType type .notArray)
  | some element =>
    if element.isNumeric then .ok (.vector type vectorType)
    else .error (.invalidVectorType type (.notNumeric element))

end Registry

end DocumentQuery
