import DocumentQuery.Expression.Typing
import DocumentQuery.Method.Translator

/-!
# Distance of two vectors

The call `VectorDistance(functions, vector1, vector2 [, useBruteForce
[, distanceFunction, dataType]])` becomes a call of the store function of the
same name, with a description of the vectors as its last argument.

Main definitions:

* `VectorDistance.method`
* `VectorDistance.locate` — the mapping that describes the vectors
* `VectorDistance.describe` — the description that is handed to the store
* `VectorDistance.translator`
* `Translators.builtin`
-/

namespace DocumentQuery.VectorDistance

def functionName : String := "VectorDistance"

def method : Method := ⟨"CosmosDbFunctions", functionName⟩

/-- The mapping of an operand together with the description that it carries. -/
def vectorMapping? (e : Expression) : Option (TypeMapping × VectorType) := do
  let mapping ← e.mapping?
  let vectorType ← mapping.vectorType?
  return (mapping, vectorType)

/-- The first operand that is described as a vector describes both. -/
def locate (first second : Expression) : Except UserError (TypeMapping × VectorType) :=
  match (vectorMapping? first).or (vectorMapping? second) with
  | some found => .ok found
  | none => .error .vectorSearchRequiresVector

def notConstant (argument : String) : UserError := .argumentNotConstant argument functionName

/-- Whether to search by brute force: a constant of the call, or no. -/
def bruteForce (registry : Registry) : Option Expression → Except QueryError Expression
  | some (.constant (.bool b) type mapping) => .ok (.constant (.bool b) type mapping)
  | some _ => .error (.user (notConstant "useBruteForce"))
  | none => do
    let mapping ← (registry.require .bool).mapError QueryError.ofRegistry
    return .constant (.bool false) .bool (some mapping)

def distanceFunction : Expression → Except UserError DistanceFunction
  | .constant (.enum (.distanceFunction f)) _ _ => .ok f
  | _ => .error (notConstant "distanceFunction")

def elementType : Expression → Except UserError ElementType
  | .constant (.enum (.vectorDataType t)) _ _ => .ok t
  | _ => .error (notConstant "dataType")

/-- The description with what the call says put in its place. -/
def override (v : VectorType) : Option (Expression × Expression) → Except UserError VectorType
  | none => .ok v
  | some (function, element) => do
    let f ← distanceFunction function
    let t ← elementType element
    return (v.withDistanceFunction f).withElementType t

/-- The description with an element type in any case. -/
def describe (mapping : TypeMapping) (v : VectorType) : VectorType :=
  match v.elementType with
  | some _ => v
  | none => v.withElementType (ElementType.defaultFor mapping.type)

/-- The call of the store function. `flag` and `overrides` are the arguments of
the call that need not be there. -/
def build (registry : Registry) (first second : Expression) (flag : Option Expression)
    (overrides : Option (Expression × Expression)) : Except QueryError Expression := do
  let (mapping, vectorType) ← (locate first second).mapError QueryError.user
  let flag ← bruteForce registry flag
  let vectorType ← (override vectorType overrides).mapError QueryError.user
  let descriptor ← (registry.require .vectorType).mapError QueryError.ofRegistry
  return .function functionName
    [first.withMapping mapping, second.withMapping mapping, flag,
      .constant (.vectorType (describe mapping vectorType)) .vectorType (some descriptor)]
    .float64 none

/-- The first argument of the call is the object that the method is called on. -/
def translator (registry : Registry) : Translator := fun call =>
  if call.method ≠ method then .ok none
  else
    match call.arguments with
    | [_, first, second] => (build registry first second none none).map some
    | [_, first, second, flag] => (build registry first second (some flag) none).map some
    | [_, first, second, flag, function, element] =>
      (build registry first second (some flag) (some (function, element))).map some
    | arguments =>
      .error (.internal (.unexpectedArgumentCount functionName arguments.length))

end DocumentQuery.VectorDistance

namespace DocumentQuery

/-- The translators that are there before any is added. -/
def Translators.builtin (registry : Registry) : Translators :=
  ⟨[VectorDistance.translator registry]⟩

end DocumentQuery
