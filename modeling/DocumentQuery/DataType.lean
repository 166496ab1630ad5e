/-!
# Static types

`DataType` is the type of an expression or of a value.

Main definitions:

* `DataType`
* `DataType.name`, `DataType.display` — a type in documents and in messages
* `DataType.element?`, `DataType.isNumeric`
-/

namespace DocumentQuery

inductive DataType where
  | bool
  | int8
  | int16
  | int32
  | int64
  | uint8
  | uint16
  | uint32
  | uint64
  | float16
  | float32
  | float64
  | decimal
  | string
  | guid
  | dateTime
  | array (element : DataType)
  | object
  | distanceFunction
  | vectorDataType
  | vectorType
  | null
  | unknown
deriving DecidableEq, Inhabited, Repr

namespace DataType

/-- The name of a type; every array type has the same one. -/
def name : DataType → String
  | .bool => "Bool"
  | .int8 => "Int8"
  | .int16 => "Int16"
  | .int32 => "Int32"
  | .int64 => "Int64"
  | .uint8 => "UInt8"
  | .uint16 => "UInt16"
  | .uint32 => "UInt32"
  | .uint64 => "UInt64"
  | .float16 => "Float16"
  | .float32 => "Float32"
  | .float64 => "Float64"
  | .decimal => "Decimal"
  | .string => "String"
  | .guid => "Guid"
  | .dateTime => "DateTime"
  | .array _ => "Array"
  | .object => "Object"
  | .distanceFunction => "DistanceFunction"
  | .vectorDataType => "VectorDataType"
  | .vectorType => "VectorType"
  | .null => "Null"
  | .unknown => "Unknown"

/-- One type for each name, in the order in which documents list the names. -/
def representatives : List DataType := [
  .bool, .int8, .int16, .int32, .int64, .uint8, .uint16, .uint32, .uint64,
  .float16, .float32, .float64, .decimal, .string, .guid, .dateTime,
  .array .unknown, .object, .distanceFunction, .vectorDataType, .vectorType,
  .null, .unknown]

/-- A type in messages: an array type is its element type with brackets. -/
def display : DataType → String
  | .array element => element.display ++ "[]"
  | t => t.name
termination_by structural t => t

def element? : DataType → Option DataType
  | .array element => some element
  | _ => none

def isNumeric : DataType → Bool
  | .int8 | .int16 | .int32 | .int64 => true
  | .uint8 | .uint16 | .uint32 | .uint64 => true
  | .float16 | .float32 | .float64 | .decimal => true
  | _ => false

end DataType

end DocumentQuery
