import DocumentQuery.Expression.Basic
import DocumentQuery.Registry

/-!
# Why no query is written

A `UserError` says that what is asked for cannot be expressed with the data at
hand. An `InternalError` says that the tree of the query breaks a rule that its
producer has to keep.

Main definitions:

* `UserError`, `InternalError`, `QueryError`
* `QueryError.message`
-/

namespace DocumentQuery

/-- How the arguments of a raw fragment are given. -/
inductive RawArgumentsForm where
  | parameter
  | constant
deriving DecidableEq, Repr

def RawArgumentsForm.name : RawArgumentsForm → String
  | .parameter => "Parameter"
  | .constant => "Constant"

inductive UserError where
  | offsetRequiresLimit
  | vectorSearchRequiresVector
  | argumentNotConstant (argument function : String)
  /-- The type is that of the value found instead of an array, if there is one. -/
  | invalidRawArguments (form : RawArgumentsForm) (valueType : Option DataType)
  | placeOutOfRange (index count : Nat)
  | missingParameterValue (name : String)
deriving DecidableEq, Repr

namespace UserError

def message : UserError → String
  | .offsetRequiresLimit =>
    "The query dialect does not support OFFSET without LIMIT. Consider adding a limit to the query."
  | .vectorSearchRequiresVector =>
    "The 'VectorDistance' function requires at least one of its vector arguments to be a " ++
      "property or parameter configured as a vector."
  | .argumentNotConstant argument function =>
    s!"The '{argument}' argument to '{function}' must be a constant."
  | .invalidRawArguments form valueType =>
    "Raw SQL arguments must be a parameter or constant holding an array, but got a " ++
      form.name ++ " with value type '" ++ (valueType.map DataType.display).getD "<none>" ++ "'."
  | .placeOutOfRange index count =>
    "Raw SQL placeholder \x7b" ++ toString index ++ "\x7d is out of range: " ++
      toString count ++ " argument(s) supplied."
  | .missingParameterValue name => s!"No value was supplied for parameter '{name}'."

end UserError

/-- The nodes that cannot be rendered without a type mapping. -/
inductive MappedNode where
  | constant
  | parameter
deriving DecidableEq, Repr

def MappedNode.name : MappedNode → String
  | .constant => "Constant"
  | .parameter => "Parameter"

inductive InternalError where
  | unsupportedBinaryOperator (operator : BinaryOperator)
  | unsupportedUnaryOperator (operator : UnaryOperator)
  | missingTypeMapping (node : MappedNode)
  | unexpandedInValues (parameter : String)
  | missingInValues
  | joinsNotSupported
  | singleValueArity (count : Nat)
  | eachItemRequiresAlias
  | unexpectedArgumentCount (function : String) (count : Nat)
  | mapping (e : MappingError)
  | registry (e : RegistryError)
deriving DecidableEq, Repr

namespace InternalError

def message : InternalError → String
  | .unsupportedBinaryOperator operator => s!"Unsupported binary operator: {operator.name}"
  | .unsupportedUnaryOperator operator => s!"Unsupported unary operator: {operator.name}"
  | .missingTypeMapping node => s!"{node.name} expression without a type mapping"
  | .unexpandedInValues parameter =>
    s!"In expression values parameter '{parameter}' must be expanded to constants before " ++
      "SQL generation"
  | .missingInValues => "Missing values on In expression"
  | .joinsNotSupported => "JOINs not yet supported"
  | .singleValueArity count =>
    "Encountered SelectExpression with uses_single_value_projection=true and " ++
      toString count ++ " projections"
  | .eachItemRequiresAlias => "Alias cannot be missing on a source with with_in=true"
  | .unexpectedArgumentCount function count =>
    s!"Unexpected argument count {count} for '{function}'"
  | .mapping e => s!"Type mapping error: {e.message}"
  | .registry e => s!"Type mapping lookup failed: {e.message}"

end InternalError

inductive QueryError where
  | user (e : UserError)
  | internal (e : InternalError)
deriving DecidableEq, Repr

namespace QueryError

def message : QueryError → String
  | .user e => e.message
  | .internal e => s!"Internal error (invalid IR): {e.message}"

/-- A mapping of the tree cannot render a value. -/
def ofMapping (e : MappingError) : QueryError := .internal (.mapping e)

/-- The registry cannot provide a mapping. -/
def ofRegistry (e : RegistryError) : QueryError := .internal (.registry e)

end QueryError

end DocumentQuery
