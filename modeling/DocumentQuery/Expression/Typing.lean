import DocumentQuery.Expression.Basic

/-!
# Types, mappings and names of expressions

Main definitions:

* `Expression.dataType` — the static type
* `Expression.mapping?`, `Expression.withMapping` — the mapping that a node carries
* `Expression.accessName?` — the name at the end of an access path
-/

namespace DocumentQuery

/-! ## Static types -/

mutual

/-- The static type of an expression: the one that it carries, or the one that
its form implies. -/
def Expression.dataType : Expression → DataType
  | .scalarReference _ type => type
  | .keyAccess _ _ type _ => type
  | .binary _ _ _ type _ => type
  | .unary _ _ type _ => type
  | .conditional _ _ _ type _ => type
  | .function _ _ type _ => type
  | .constant _ type _ => type
  | .parameter _ type _ => type
  | .isIn _ _ _ => .bool
  | .exists _ => .bool
  | .arrayConstant [] => .array .unknown
  | .arrayConstant (item :: _) => .array item.dataType
  | .array subquery => .array subquery.valueType
  | .scalarSubquery subquery => subquery.valueType
  | .objectArrayProjection _ => .array .object
  | .objectReference _ => .object
  | .objectAccess _ _ => .object
  | .entityProjection _ => .object
  | .fromSql _ _ => .object
  | .select _ => .unknown
termination_by structural e => e

/-- The type of a row that consists of one projection. -/
def Select.valueType : Select → DataType
  | ⟨_, [⟨expression, _, _⟩], _, _, _, _, _, _⟩ => expression.dataType
  | _ => .unknown
termination_by structural s => s

end

/-! ## Mappings -/

namespace Expression

/-- The mapping that a node carries. -/
def mapping? : Expression → Option TypeMapping
  | .keyAccess _ _ _ mapping => mapping
  | .binary _ _ _ _ mapping => mapping
  | .unary _ _ _ mapping => mapping
  | .conditional _ _ _ _ mapping => mapping
  | .function _ _ _ mapping => mapping
  | .constant _ _ mapping => mapping
  | .parameter _ _ mapping => mapping
  | _ => none

/-- The same node with a mapping; a node that carries none stays as it is. -/
def withMapping (mapping : TypeMapping) : Expression → Expression
  | .keyAccess object property type _ => .keyAccess object property type mapping
  | .binary operator left right type _ => .binary operator left right type mapping
  | .unary operator operand type _ => .unary operator operand type mapping
  | .conditional test ifTrue ifFalse type _ => .conditional test ifTrue ifFalse type mapping
  | .function name arguments type _ => .function name arguments type mapping
  | .constant value type _ => .constant value type mapping
  | .parameter name type _ => .parameter name type mapping
  | e => e

/-! ## Names -/

/-- The name of the property or reference at the end of an access path. -/
def accessName? : Expression → Option String
  | .keyAccess _ property _ _ => some property
  | .objectAccess _ property => some property
  | .objectReference name => some name
  | .scalarReference name _ => some name
  | .entityProjection access => access.accessName?
  | .objectArrayProjection access => access.accessName?
  | _ => none
termination_by structural e => e

end Expression

end DocumentQuery
