import DocumentQuery.Expression.Build
import DocumentQuery.Query.Bindings
import DocumentQuery.Text.Template

/-!
# From trees to query text

An expression or select is lowered to the layout of its text. The only state is
what has been bound so far; the layout of a part does not depend on where the
part stands.

Main definitions:

* `Lowering` — a computation that binds parameters
* `BinaryOperator.token?`, `UnaryOperator.token?`
* `ProjectionStyle.of` — how the projections of a select are written
* `Expression.lower`, `Select.lower`
* `Select.generate` — the query that a select describes
-/

namespace DocumentQuery

/-- What a query is written from besides its tree. -/
structure Context where
  registry : Registry
  values : ParameterValues

/-- A computation that binds parameters and may fail. -/
abbrev Lowering (α : Type) := StateT Bindings (Except QueryError) α

namespace Lowering

def userError {α : Type} (e : UserError) : Lowering α := throw (.user e)

def internalError {α : Type} (e : InternalError) : Lowering α := throw (.internal e)

end Lowering

/-! ## Operators -/

/-- An operator between its operands, spaces included. -/
def BinaryOperator.token? : BinaryOperator → Option String
  | .add => some " + "
  | .subtract => some " - "
  | .multiply => some " * "
  | .divide => some " / "
  | .modulo => some " % "
  | .bitOr => some " | "
  | .bitAnd => some " & "
  | .exclusiveOr => some " ^ "
  | .leftShift => some " << "
  | .rightShift => some " >> "
  | .andAlso => some " AND "
  | .orElse => some " OR "
  | .equal => some " = "
  | .notEqual => some " != "
  | .greaterThan => some " > "
  | .greaterThanOrEqual => some " >= "
  | .lessThan => some " < "
  | .lessThanOrEqual => some " <= "
  | .coalesce => some " ?? "
  | .power | .arrayIndex => none

/-- The operator for a left operand of some type; strings are concatenated. -/
def BinaryOperator.tokenFor? (operator : BinaryOperator) (left : DataType) : Option String :=
  if operator = .add ∧ left = .string then some " || " else operator.token?

/-- The operator before an operand of some type. -/
def UnaryOperator.token? (operator : UnaryOperator) (operand : DataType) : Option String :=
  match operator with
  | .plus => some "+"
  | .negate => some "-"
  | .not => some (if operand = .bool then "NOT" else "~")
  | .convert => none

/-! ## Projections -/

inductive ProjectionStyle where
  /-- Bare values. -/
  | value
  /-- An object literal. -/
  | object
  /-- A list of attributes. -/
  | columns
deriving DecidableEq, Repr

namespace ProjectionStyle

/-- Whether a name is `value` in any case, which may not follow `AS`. -/
def isValueWord (name : String) : Bool := name.map Char.toLower == "value"

def isFunction : Expression → Bool
  | .function _ _ _ _ => true
  | _ => false

/-- Projections under names of their own are written as an object literal if
there are several, or if the only one is called `value`. Function calls cannot
stand in such a literal. -/
def needsObject (projection : List Projection) : Bool :=
  (match projection with
    | [] => false
    | [p] => isValueWord p.aliasName
    | _ => true) &&
  projection.any Projection.hasCustomAlias &&
  !projection.any fun p => isFunction p.expression

def of (singleValue : Bool) (projection : List Projection) : ProjectionStyle :=
  if singleValue then .value else if needsObject projection then .object else .columns

/-- One projection around the layout of its expression. -/
def item (style : ProjectionStyle) (p : Projection) (layout : Layout) : Layout :=
  match style with
  | .value => layout
  | .object => .text ("\"" ++ p.aliasName ++ "\" : ") :: layout
  | .columns => if p.hasCustomAlias then layout ++ [.text " AS ", .text p.aliasName] else layout

/-- All projections of a select. -/
def clause (style : ProjectionStyle) (items : List Layout) : Layout :=
  match style with
  | .value => .text "VALUE " :: Layout.separated [.text ", "] items
  | .object =>
    [.text "VALUE", .newline, .text "\x7b", .newline] ++
      Layout.nested (Layout.separated [.text ",", .newline] items ++ [.newline]) ++ [.text "\x7d"]
  | .columns => Layout.separated [.text ", "] items

end ProjectionStyle

/-! ## Parts of selects and expressions -/

namespace Lowering

/-- A constant under its mapping. -/
def constant (value : Value) : Option TypeMapping → Lowering Layout
  | none => internalError (.missingTypeMapping .constant)
  | some mapping =>
    match mapping.literal value with
    | .ok literal => return [.text literal]
    | .error e => throw (.ofMapping e)

/-- A reference to a parameter, which is bound if it is the first. -/
def parameter (values : ParameterValues) (name : String) (mapping : Option TypeMapping) :
    Lowering Layout := do
  set (← liftM ((← get).bindNamed values name mapping))
  return [.text (referenceTo name)]

/-- Membership in a list. -/
def membership (negated : Bool) (valuesParameter : Option String) (item : Lowering Layout)
    (values : Option (Lowering (List Layout))) : Lowering Layout :=
  match valuesParameter, values with
  | some name, _ => internalError (.unexpandedInValues name)
  | none, none => internalError .missingInValues
  | none, some values => do
    let item ← item
    let values ← values
    return item ++ .text (if negated then " NOT IN (" else " IN (") ::
      Layout.separated [.text ", "] values ++ [.text ")"]

def binary (operator : BinaryOperator) (leftType : DataType) (left right : Lowering Layout) :
    Lowering Layout :=
  if operator = .arrayIndex then do
    let left ← left
    let right ← right
    return left ++ .text "[" :: right ++ [.text "]"]
  else
    match operator.tokenFor? leftType with
    | none => internalError (.unsupportedBinaryOperator operator)
    | some token => do
      let left ← left
      let right ← right
      return .text "(" :: left ++ .text token :: right ++ [.text ")"]

def unary (operator : UnaryOperator) (operandType : DataType) (operand : Lowering Layout) :
    Lowering Layout :=
  match operator.token? operandType with
  | none => internalError (.unsupportedUnaryOperator operator)
  | some token => do
    let operand ← operand
    return .text token :: .text "(" :: operand ++ [.text ")"]

/-- A select on lines of its own between an opening text and a parenthesis. -/
def subquery (opening : String) (select : Lowering Layout) : Lowering Layout := do
  return Layout.block opening (← select) ")"

/-- A select that is read from. -/
def derivedSource (isSimple : Bool) (select : Lowering Layout) : Lowering Layout :=
  if isSimple then do return .text "(" :: (← select) ++ [.text ")"]
  else subquery "(" select

/-- A source around the layout of its container. -/
def source (aliasName : Option String) (eachItem : Bool) (container : Lowering Layout) :
    Lowering Layout :=
  match eachItem, aliasName with
  | true, none => internalError .eachItemRequiresAlias
  | true, some aliasName => do return .text aliasName :: .text " IN " :: (← container)
  | false, none => container
  | false, some aliasName => do return (← container) ++ [.text " ", .text aliasName]

/-- A clause on a line of its own. -/
def clause (keyword : String) (body : Layout) : Layout := .newline :: .text keyword :: body

/-- The rows to leave out and to keep. -/
def paging (offset limit : Lowering (Option Layout)) : Lowering Layout := do
  let offset ← offset
  let limit ← limit
  match offset, limit with
  | none, none => return []
  | some _, none => userError .offsetRequiresLimit
  | offset, some limit =>
    return clause "OFFSET " (offset.getD [.text "0"] ++ .text " LIMIT " :: limit)

/-! ## Raw fragments -/

/-- Constants of a raw fragment as literals, each under the mapping of its own
type. -/
def rawLiterals (registry : Registry) : List Value → Except QueryError (List String)
  | [] => .ok []
  | value :: rest => do
    let mapping ← (registry.require value.dataType).mapError QueryError.ofRegistry
    let literal ← (mapping.literal value).mapError QueryError.ofMapping
    return literal :: (← rawLiterals registry rest)

/-- What fills the places of a raw fragment. -/
def substitutions (ctx : Context) : RawArguments → Lowering (List String)
  | .parameter name =>
    match ctx.values.lookup name with
    | some (.array values) => modifyGet fun b => b.bindArguments ctx.values values
    | other => userError (.invalidRawArguments .parameter (other.map Value.dataType))
  | .constant (.array values) => liftM (rawLiterals ctx.registry values)
  | .constant .null => userError (.invalidRawArguments .constant none)
  | .constant value => userError (.invalidRawArguments .constant (some value.dataType))

/-- A raw fragment, its places filled, on lines of its own. -/
def fromSql (ctx : Context) (sql : String) (arguments : RawArguments) : Lowering Layout := do
  let substitutions ← substitutions ctx arguments
  match Template.fill sql substitutions with
  | .ok sql => return Layout.block "(" (Layout.ofLines sql) ")"
  | .error e => userError (.placeOutOfRange e.index e.count)

end Lowering

/-! ## Lowering -/

mutual

/-- The layout of an expression. -/
def Expression.lower (ctx : Context) : Expression → Lowering Layout
  | .select select => select.lower ctx
  | .objectReference name => return [.text name]
  | .scalarReference name _ => return [.text name]
  | .keyAccess object property _ _ => do
    return (← object.lower ctx) ++ [.text ("[\"" ++ property ++ "\"]")]
  | .objectAccess object property => do
    return (← object.lower ctx) ++ [.text ("[\"" ++ property ++ "\"]")]
  | .entityProjection access => access.lower ctx
  | .objectArrayProjection access => access.lower ctx
  | .binary operator left right _ _ =>
    Lowering.binary operator left.dataType (left.lower ctx) (right.lower ctx)
  | .unary .not (.isIn item none valuesParameter) _ _ =>
    Lowering.membership true valuesParameter (item.lower ctx) none
  | .unary .not (.isIn item (some values) valuesParameter) _ _ =>
    Lowering.membership true valuesParameter (item.lower ctx) (some (lowerAll ctx values))
  | .unary operator operand _ _ =>
    Lowering.unary operator operand.dataType (operand.lower ctx)
  | .conditional test ifTrue ifFalse _ _ => do
    let test ← test.lower ctx
    let ifTrue ← ifTrue.lower ctx
    let ifFalse ← ifFalse.lower ctx
    return .text "(" :: test ++ .text " ? " :: ifTrue ++ .text " : " :: ifFalse ++ [.text ")"]
  | .function name arguments _ _ => do
    let arguments ← lowerAll ctx arguments
    return .text name :: .text "(" :: Layout.separated [.text ", "] arguments ++ [.text ")"]
  | .constant value _ mapping => Lowering.constant value mapping
  | .parameter name _ mapping => Lowering.parameter ctx.values name mapping
  | .isIn item none valuesParameter =>
    Lowering.membership false valuesParameter (item.lower ctx) none
  | .isIn item (some values) valuesParameter =>
    Lowering.membership false valuesParameter (item.lower ctx) (some (lowerAll ctx values))
  | .arrayConstant items => do
    return .text "[" :: Layout.separated [.text ", "] (← lowerAll ctx items) ++ [.text "]"]
  | .exists subquery => Lowering.subquery "EXISTS (" (subquery.lower ctx)
  | .array subquery => Lowering.subquery "ARRAY(" (subquery.lower ctx)
  | .scalarSubquery subquery => Lowering.subquery "(" (subquery.lower ctx)
  | .fromSql sql arguments => Lowering.fromSql ctx sql arguments
termination_by structural e => e

/-- The layouts of expressions one after the other. -/
def lowerAll (ctx : Context) : List Expression → Lowering (List Layout)
  | [] => return []
  | e :: es => do
    let layout ← e.lower ctx
    return layout :: (← lowerAll ctx es)
termination_by structural es => es

/-- The layout of an expression that need not be there. -/
def lowerOptional (ctx : Context) : Option Expression → Lowering (Option Layout)
  | none => return none
  | some e => do return some (← e.lower ctx)
termination_by structural e => e

/-- The layout of a select: projections, source, predicate, orderings and paging,
in this order. -/
def Select.lower (ctx : Context) : Select → Lowering Layout
  | ⟨isDistinct, projection, singleValue, sources, predicate, orderings, offset, limit⟩ => do
    let projections ←
      if singleValue && projection.length > 1 then
        Lowering.internalError (.singleValueArity projection.length)
      else if projection.isEmpty then pure [.text "1"]
      else do
        let style := ProjectionStyle.of singleValue projection
        pure (style.clause (← lowerProjections ctx style projection))
    let source ← lowerSources ctx sources
    let predicate ← lowerOptional ctx predicate
    let orderings ← lowerSortKeys ctx orderings
    let paging ← Lowering.paging (lowerOptional ctx offset) (lowerOptional ctx limit)
    return .text "SELECT " :: (if isDistinct then [.text "DISTINCT "] else []) ++ projections ++
      source ++
      (match predicate with
        | some predicate => Lowering.clause "WHERE " predicate
        | none => []) ++
      (if orderings.isEmpty then []
        else Lowering.clause "ORDER BY " (Layout.separated [.text ", "] orderings)) ++
      paging
termination_by structural s => s

/-- The projections of a select, written in one style. -/
def lowerProjections (ctx : Context) (style : ProjectionStyle) :
    List Projection → Lowering (List Layout)
  | [] => return []
  | ⟨expression, aliasName, name⟩ :: ps => do
    let layout ← expression.lower ctx
    return style.item ⟨expression, aliasName, name⟩ layout :: (← lowerProjections ctx style ps)
termination_by structural ps => ps

/-- The source of a select, if it has one. -/
def lowerSources (ctx : Context) : List Source → Lowering Layout
  | [] => return []
  | [⟨.select select, aliasName, eachItem⟩] => do
    return Lowering.clause "FROM " (← Lowering.source aliasName eachItem
      (Lowering.derivedSource select.isSimpleValue (select.lower ctx)))
  | [⟨container, aliasName, eachItem⟩] => do
    return Lowering.clause "FROM " (← Lowering.source aliasName eachItem (container.lower ctx))
  | _ :: _ :: _ => Lowering.internalError .joinsNotSupported
termination_by structural ss => ss

/-- The keys that the rows are sorted by. -/
def lowerSortKeys (ctx : Context) : List SortKey → Lowering (List Layout)
  | [] => return []
  | ⟨expression, isAscending⟩ :: ks => do
    let layout ← expression.lower ctx
    let layout := if isAscending then layout else layout ++ [.text " DESC"]
    return layout :: (← lowerSortKeys ctx ks)
termination_by structural ks => ks

end

/-! ## Queries -/

namespace Select

/-- The query that a select describes. -/
def generate (s : Select) (registry : Registry) (values : ParameterValues)
    (options : GeneratorOptions := {}) : Except QueryError Query := do
  let (layout, bindings) ← (s.lower { registry, values }).run {}
  return { text := layout.render options.indentSize, parameters := bindings.parameters }

end Select

end DocumentQuery
