import DocumentQuery.Expression.Basic

/-!
# Trees without annotations

Static types, type mappings and the names that attributes would have without an alias
are annotations: two trees that differ in nothing else describe the same query.

Main definitions:

* `Expression.untyped`, `Select.untyped`
-/

namespace DocumentQuery

mutual

/-- An expression without types, mappings and names of attributes. -/
def Expression.untyped : Expression → Expression
  | .select select => .select select.untyped
  | .objectReference name => .objectReference name
  | .scalarReference name _ => .scalarReference name .unknown
  | .keyAccess object property _ _ => .keyAccess object.untyped property .unknown none
  | .objectAccess object property => .objectAccess object.untyped property
  | .entityProjection access => .entityProjection access.untyped
  | .objectArrayProjection access => .objectArrayProjection access.untyped
  | .binary operator left right _ _ => .binary operator left.untyped right.untyped .unknown none
  | .unary operator operand _ _ => .unary operator operand.untyped .unknown none
  | .conditional test ifTrue ifFalse _ _ =>
    .conditional test.untyped ifTrue.untyped ifFalse.untyped .unknown none
  | .function name arguments _ _ => .function name (untypedAll arguments) .unknown none
  | .constant value _ _ => .constant value .unknown none
  | .parameter name _ _ => .parameter name .unknown none
  | .isIn item none valuesParameter => .isIn item.untyped none valuesParameter
  | .isIn item (some values) valuesParameter =>
    .isIn item.untyped (some (untypedAll values)) valuesParameter
  | .arrayConstant items => .arrayConstant (untypedAll items)
  | .exists subquery => .exists subquery.untyped
  | .array subquery => .array subquery.untyped
  | .scalarSubquery subquery => .scalarSubquery subquery.untyped
  | .fromSql sql arguments => .fromSql sql arguments
termination_by structural e => e

def untypedAll : List Expression → List Expression
  | [] => []
  | e :: es => e.untyped :: untypedAll es
termination_by structural es => es

def untypedOptional : Option Expression → Option Expression
  | none => none
  | some e => some e.untyped
termination_by structural e => e

/-- A select without types, mappings and names of attributes. -/
def Select.untyped : Select → Select
  | ⟨isDistinct, projection, singleValue, sources, predicate, orderings, offset, limit⟩ =>
    ⟨isDistinct, untypedProjections projection, singleValue, untypedSources sources,
      untypedOptional predicate, untypedSortKeys orderings, untypedOptional offset,
      untypedOptional limit⟩
termination_by structural s => s

def untypedProjections : List Projection → List Projection
  | [] => []
  | ⟨expression, aliasName, _⟩ :: ps =>
    ⟨expression.untyped, aliasName, ""⟩ :: untypedProjections ps
termination_by structural ps => ps

def untypedSources : List Source → List Source
  | [] => []
  | ⟨container, aliasName, eachItem⟩ :: ss =>
    ⟨container.untyped, aliasName, eachItem⟩ :: untypedSources ss
termination_by structural ss => ss

def untypedSortKeys : List SortKey → List SortKey
  | [] => []
  | ⟨expression, isAscending⟩ :: ks => ⟨expression.untyped, isAscending⟩ :: untypedSortKeys ks
termination_by structural ks => ks

end

end DocumentQuery
