import DocumentQuery.TypeMapping

/-!
# Expressions and selects

The tree of a query. A `Select` reads from at most one source in every query
that can be written, but the tree can hold more.

Main definitions:

* `BinaryOperator`, `UnaryOperator`
* `Expression`, `Select`, `Projection`, `Source`, `SortKey`
* `RawArguments` — what fills the places of a raw fragment
-/

namespace DocumentQuery

inductive BinaryOperator where
  | add
  | subtract
  | multiply
  | divide
  | modulo
  | power
  | bitOr
  | bitAnd
  | exclusiveOr
  | leftShift
  | rightShift
  | andAlso
  | orElse
  | equal
  | notEqual
  | greaterThan
  | greaterThanOrEqual
  | lessThan
  | lessThanOrEqual
  | coalesce
  /-- An item of an array by its position. -/
  | arrayIndex
deriving DecidableEq, Inhabited, Repr

def BinaryOperator.name : BinaryOperator → String
  | .add => "Add"
  | .subtract => "Subtract"
  | .multiply => "Multiply"
  | .divide => "Divide"
  | .modulo => "Modulo"
  | .power => "Power"
  | .bitOr => "Or"
  | .bitAnd => "And"
  | .exclusiveOr => "ExclusiveOr"
  | .leftShift => "LeftShift"
  | .rightShift => "RightShift"
  | .andAlso => "AndAlso"
  | .orElse => "OrElse"
  | .equal => "Equal"
  | .notEqual => "NotEqual"
  | .greaterThan => "GreaterThan"
  | .greaterThanOrEqual => "GreaterThanOrEqual"
  | .lessThan => "LessThan"
  | .lessThanOrEqual => "LessThanOrEqual"
  | .coalesce => "Coalesce"
  | .arrayIndex => "ArrayIndex"

instance : Enumerated BinaryOperator where
  members := [
    .add, .subtract, .multiply, .divide, .modulo, .power,
    .bitOr, .bitAnd, .exclusiveOr, .leftShift, .rightShift, .andAlso, .orElse,
    .equal, .notEqual, .greaterThan, .greaterThanOrEqual, .lessThan, .lessThanOrEqual,
    .coalesce, .arrayIndex]
  name := BinaryOperator.name

inductive UnaryOperator where
  | plus
  | negate
  /-- Negation of a truth value, complement of anything else. -/
  | not
  | convert
deriving DecidableEq, Inhabited, Repr

def UnaryOperator.name : UnaryOperator → String
  | .plus => "UnaryPlus"
  | .negate => "Negate"
  | .not => "Not"
  | .convert => "Convert"

instance : Enumerated UnaryOperator where
  members := [.plus, .negate, .not, .convert]
  name := UnaryOperator.name

/-- What fills the places of a raw fragment: an array, supplied under a name or
given in the tree. -/
inductive RawArguments where
  | parameter (name : String)
  | constant (value : Value)
deriving Inhabited, Repr

mutual

inductive Expression where
  | select (select : Select)
  /-- The collection, or the alias of a source. -/
  | objectReference (name : String)
  /-- The alias of a source whose items are no objects. -/
  | scalarReference (name : String) (type : DataType)
  /-- A property without properties of its own. -/
  | keyAccess (object : Expression) (property : String) (type : DataType)
      (mapping : Option TypeMapping)
  /-- A property that is an object. -/
  | objectAccess (object : Expression) (property : String)
  /-- A whole entity found along an access path. -/
  | entityProjection (access : Expression)
  /-- A collection of entities found along an access path. -/
  | objectArrayProjection (access : Expression)
  | binary (operator : BinaryOperator) (left right : Expression) (type : DataType)
      (mapping : Option TypeMapping)
  | unary (operator : UnaryOperator) (operand : Expression) (type : DataType)
      (mapping : Option TypeMapping)
  | conditional (test ifTrue ifFalse : Expression) (type : DataType)
      (mapping : Option TypeMapping)
  | function (name : String) (arguments : List Expression) (type : DataType)
      (mapping : Option TypeMapping)
  | constant (value : Value) (type : DataType) (mapping : Option TypeMapping)
  | parameter (name : String) (type : DataType) (mapping : Option TypeMapping)
  /-- Membership in a list. A list that is supplied under a name has to be put in
  place of the name before the query is written. -/
  | isIn (item : Expression) (values : Option (List Expression)) (valuesParameter : Option String)
  | arrayConstant (items : List Expression)
  | exists (subquery : Select)
  | array (subquery : Select)
  | scalarSubquery (subquery : Select)
  /-- Query text taken as it is, with numbered places. -/
  | fromSql (sql : String) (arguments : RawArguments)

structure Select where
  isDistinct : Bool
  projection : List Projection
  /-- Rows are bare values rather than objects. -/
  singleValue : Bool
  sources : List Source
  predicate : Option Expression
  orderings : List SortKey
  offset : Option Expression
  limit : Option Expression

/-- A projected expression. -/
structure Projection where
  expression : Expression
  /-- The name to give to the attribute; may be empty. -/
  aliasName : String
  /-- The name that the attribute has without an alias. -/
  name : String

/-- What a select reads from. -/
structure Source where
  container : Expression
  aliasName : Option String
  /-- The alias stands for the items of the container one after the other. -/
  eachItem : Bool

structure SortKey where
  expression : Expression
  isAscending : Bool

end

instance : Inhabited Expression := ⟨.objectReference ""⟩

/-- Nothing is selected from nowhere. -/
def Select.empty : Select where
  isDistinct := false
  projection := []
  singleValue := false
  sources := []
  predicate := none
  orderings := []
  offset := none
  limit := none

instance : Inhabited Select := ⟨.empty⟩

end DocumentQuery
