import DocumentQuery.Digest.Sha256
import DocumentQuery.Expression.Basic
import DocumentQuery.Json.Printer

/-!
# Writing documents

Fields are written in the order of their records. A list that may be left out is
left out when it is empty, and so is everything that is not there.

Main definitions:

* `DataType.toJson`, `TypeMapping.toJson`
* `Expression.toJson`, `Select.toJson` and the parts of selects
* `Select.fingerprint` — the digest of the text of a select
-/

namespace DocumentQuery

/-! ## Types and mappings -/

def DataType.toJson : DataType → Json
  | .array element => .obj [("Array", element.toJson)]
  | t => .str t.name
termination_by structural t => t

/-- The rendering stands among the members of its mapping. -/
def Rendering.members : Rendering → List (String × Json)
  | .json => [("kind", .str "Json")]
  | .enumMember => [("kind", .str "Enum")]
  | .vector v => [("kind", .str "Vector"), ("vector_type", v.toJson)]
  | .descriptor => [("kind", .str "VectorDescriptor")]

def TypeMapping.toJson (m : TypeMapping) : Json :=
  .obj (("clr_type", m.type.toJson) :: m.rendering.members)

/-! ## Expressions -/

/-- A member that is there only if there is something to write. -/
def optionalMember (key : String) : Option Json → List (String × Json)
  | some j => [(key, j)]
  | none => []

/-- A list that is there only if it has members. -/
def listMember (key : String) : List Json → List (String × Json)
  | [] => []
  | js => [(key, .arr js)]

/-- The type and the mapping of an expression. -/
def typingMembers (type : DataType) (mapping : Option TypeMapping) : List (String × Json) :=
  ("data_type", type.toJson) :: optionalMember "type_mapping" (mapping.map TypeMapping.toJson)

def RawArguments.toJson : RawArguments → Json
  | .parameter name => .obj [("kind", .str "Parameter"), ("name", .str name)]
  | .constant value => .obj [("kind", .str "Constant"), ("value", value.toJson)]

/-- An object that begins with the form of an expression. -/
def tagged (form : String) (members : List (String × Json)) : Json :=
  .obj (("type", .str form) :: members)

mutual

def Expression.toJson : Expression → Json
  | .select select => tagged "Select" select.members
  | .objectReference name => tagged "ObjectReference" [("name", .str name)]
  | .scalarReference name type =>
    tagged "ScalarReference" [("name", .str name), ("data_type", type.toJson)]
  | .keyAccess object property type mapping =>
    tagged "KeyAccess" <|
      [("object", object.toJson), ("property_name", .str property)] ++ typingMembers type mapping
  | .objectAccess object property =>
    tagged "ObjectAccess" [("object", object.toJson), ("property_name", .str property)]
  | .entityProjection access => tagged "EntityProjection" [("access", access.toJson)]
  | .objectArrayProjection access => tagged "ObjectArrayProjection" [("access", access.toJson)]
  | .binary operator left right type mapping =>
    tagged "Binary" <|
      [("operator", .str operator.name), ("left", left.toJson), ("right", right.toJson)] ++
        typingMembers type mapping
  | .unary operator operand type mapping =>
    tagged "Unary" <|
      [("operator", .str operator.name), ("operand", operand.toJson)] ++ typingMembers type mapping
  | .conditional test ifTrue ifFalse type mapping =>
    tagged "Conditional" <|
      [("test", test.toJson), ("if_true", ifTrue.toJson), ("if_false", ifFalse.toJson)] ++
        typingMembers type mapping
  | .function name arguments type mapping =>
    tagged "Function" <|
      [("name", .str name), ("arguments", .arr (expressionsToJson arguments))] ++
        typingMembers type mapping
  | .constant value type mapping =>
    tagged "Constant" <| ("value", value.toJson) :: typingMembers type mapping
  | .parameter name type mapping =>
    tagged "Parameter" <| ("name", .str name) :: typingMembers type mapping
  | .isIn item none valuesParameter =>
    tagged "In" <|
      ("item", item.toJson) :: optionalMember "values_parameter" (valuesParameter.map .str)
  | .isIn item (some values) valuesParameter =>
    tagged "In" <|
      [("item", item.toJson), ("values", .arr (expressionsToJson values))] ++
        optionalMember "values_parameter" (valuesParameter.map .str)
  | .arrayConstant items => tagged "ArrayConstant" [("items", .arr (expressionsToJson items))]
  | .exists subquery => tagged "Exists" [("subquery", .obj subquery.members)]
  | .array subquery => tagged "Array" [("subquery", .obj subquery.members)]
  | .scalarSubquery subquery => tagged "ScalarSubquery" [("subquery", .obj subquery.members)]
  | .fromSql sql arguments =>
    tagged "FromSql" [("sql", .str sql), ("arguments", arguments.toJson)]
termination_by structural e => e

def expressionsToJson : List Expression → List Json
  | [] => []
  | e :: es => e.toJson :: expressionsToJson es
termination_by structural es => es

/-- An expression that need not be there. -/
def optionalExpression (key : String) : Option Expression → List (String × Json)
  | none => []
  | some e => [(key, e.toJson)]
termination_by structural e => e

/-- The members of a select. -/
def Select.members : Select → List (String × Json)
  | ⟨isDistinct, projection, singleValue, sources, predicate, orderings, offset, limit⟩ =>
    ("is_distinct", .bool isDistinct) ::
      listMember "projection" (projectionsToJson projection) ++
      ("uses_single_value_projection", .bool singleValue) ::
      listMember "sources" (sourcesToJson sources) ++
      optionalExpression "predicate" predicate ++
      listMember "orderings" (sortKeysToJson orderings) ++
      optionalExpression "offset" offset ++
      optionalExpression "limit" limit
termination_by structural s => s

def Projection.toJson : Projection → Json
  | ⟨expression, aliasName, name⟩ =>
    .obj [("expression", expression.toJson), ("alias", .str aliasName), ("name", .str name)]
termination_by structural p => p

def projectionsToJson : List Projection → List Json
  | [] => []
  | p :: ps => p.toJson :: projectionsToJson ps
termination_by structural ps => ps

def Source.toJson : Source → Json
  | ⟨container, aliasName, eachItem⟩ =>
    .obj <|
      ("container", container.toJson) :: optionalMember "alias" (aliasName.map .str) ++
        [("with_in", .bool eachItem)]
termination_by structural s => s

def sourcesToJson : List Source → List Json
  | [] => []
  | s :: ss => s.toJson :: sourcesToJson ss
termination_by structural ss => ss

def SortKey.toJson : SortKey → Json
  | ⟨expression, isAscending⟩ =>
    .obj [("expression", expression.toJson), ("is_ascending", .bool isAscending)]
termination_by structural k => k

def sortKeysToJson : List SortKey → List Json
  | [] => []
  | k :: ks => k.toJson :: sortKeysToJson ks
termination_by structural ks => ks

end

/-! ## Selects -/

namespace Select

def toJson (s : Select) : Json := .obj s.members

/-- The text that stands for a select wherever one is remembered. -/
def canonicalText (s : Select) : String := s.toJson.compact

/-- The SHA-256 digest of the canonical text, in hexadecimal. -/
def fingerprint (s : Select) : String := Sha256.hex s.canonicalText

end Select

end DocumentQuery
