import DocumentQuery.DataType
import DocumentQuery.Enumerated

/-!
# Vector descriptors

A property or operand that takes part in vector search is described by the
distance function, the number of dimensions, and how its elements are stored.

Main definitions:

* `DistanceFunction`, `ElementType`, `VectorType`
* `ElementType.defaultFor` — how the elements of a vector of some type are stored
  unless said otherwise
-/

namespace DocumentQuery

/-- How two vectors are compared. -/
inductive DistanceFunction where
  | cosine
  | dotProduct
  | euclidean
deriving DecidableEq, Inhabited, Repr

def DistanceFunction.name : DistanceFunction → String
  | .cosine => "cosine"
  | .dotProduct => "dotproduct"
  | .euclidean => "euclidean"

instance : Enumerated DistanceFunction where
  members := [.cosine, .dotProduct, .euclidean]
  name := DistanceFunction.name

/-- How one element of a vector is stored. -/
inductive ElementType where
  | float16
  | float32
  | uint8
  | int8
deriving DecidableEq, Inhabited, Repr

namespace ElementType

def name : ElementType → String
  | .float16 => "float16"
  | .float32 => "float32"
  | .uint8 => "uint8"
  | .int8 => "int8"

instance : Enumerated ElementType where
  members := [.float16, .float32, .uint8, .int8]
  name := ElementType.name

/-- The elements of an array of bytes or of half floats are stored as they are.
Those of every other type, array or not, are stored as single floats. -/
def defaultFor : DataType → ElementType
  | .array .int8 => .int8
  | .array .uint8 => .uint8
  | .array .float16 => .float16
  | _ => .float32

end ElementType

/-- The description of a vector. -/
structure VectorType where
  distanceFunction : DistanceFunction
  dimensions : UInt64
  elementType : Option ElementType := none
deriving DecidableEq, Inhabited, Repr

namespace VectorType

def withDistanceFunction (v : VectorType) (f : DistanceFunction) : VectorType :=
  { v with distanceFunction := f }

def withElementType (v : VectorType) (t : ElementType) : VectorType :=
  { v with elementType := some t }

end VectorType

end DocumentQuery
