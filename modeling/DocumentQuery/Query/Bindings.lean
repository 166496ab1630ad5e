import DocumentQuery.Query.Basic
import DocumentQuery.Query.Error

/-!
# Bound parameters

While a query is written, the parameters that its text names are bound one after
the other. A parameter of the tree is bound under its own name. The arguments of
raw fragments are bound as `@p0`, `@p1`, …, passing over names that are bound
and names for which a value has been supplied.

Main definitions:

* `Bindings`
* `Bindings.bindNamed` — binds a parameter of the tree
* `Bindings.freeIndex` — the least number that makes a free name
* `Bindings.bindArguments` — binds the arguments of a raw fragment
-/

namespace DocumentQuery

/-- Supplied values by the names of parameters. -/
abbrev ParameterValues := List (String × Value)

/-- The reference to a parameter in the text of a query. -/
def referenceTo (name : String) : String := "@" ++ name

structure Bindings where
  /-- Bound parameters in the order of their first reference. -/
  parameters : List Parameter := []
  /-- No argument of a raw fragment is given a smaller number than this. -/
  next : Nat := 0
deriving Inhabited

namespace Bindings

def isBound (b : Bindings) (reference : String) : Bool :=
  b.parameters.any fun p => p.name == reference

def bind (b : Bindings) (reference : String) (value : Json) : Bindings :=
  { b with parameters := b.parameters ++ [⟨reference, value⟩] }

/-- Binds a parameter of the tree at its first reference. Later references need
neither a mapping nor a value. -/
def bindNamed (b : Bindings) (values : ParameterValues) (name : String)
    (mapping : Option TypeMapping) : Except QueryError Bindings :=
  if b.isBound (referenceTo name) then .ok b
  else
    match mapping with
    | none => .error (.internal (.missingTypeMapping .parameter))
    | some mapping =>
      match values.lookup name with
      | none => .error (.user (.missingParameterValue name))
      | some value =>
        match mapping.payload value with
        | .error e => .error (.ofMapping e)
        | .ok payload => .ok (b.bind (referenceTo name) payload)

/-! ## Names for the arguments of raw fragments -/

/-- The name of the argument with some number. -/
def argumentName (n : Nat) : String := "p" ++ toString n

def isTaken (b : Bindings) (values : ParameterValues) (n : Nat) : Bool :=
  b.isBound (referenceTo (argumentName n)) || (values.lookup (argumentName n)).isSome

/-- The least number from `n` on that `taken` does not hold of, among the next
`steps` numbers; the number after them if it holds of all. -/
def leastFree (taken : Nat → Bool) : Nat → Nat → Nat
  | 0, n => n
  | steps + 1, n => if taken n then leastFree taken steps (n + 1) else n

/-- The least number whose name is free. Every bound parameter and every
supplied value takes at most one name. -/
def freeIndex (b : Bindings) (values : ParameterValues) : Nat :=
  leastFree (b.isTaken values) (b.parameters.length + values.length) b.next

/-- Binds one argument of a raw fragment and gives the reference to it. -/
def bindArgument (b : Bindings) (values : ParameterValues) (value : Value) : String × Bindings :=
  let n := b.freeIndex values
  let reference := referenceTo (argumentName n)
  (reference, { b.bind reference value.toJson.sortKeys with next := n + 1 })

/-- Binds the arguments of a raw fragment in their order. -/
def bindArguments (b : Bindings) (values : ParameterValues) : List Value → List String × Bindings
  | [] => ([], b)
  | value :: rest =>
    let (reference, b) := b.bindArgument values value
    let (references, b) := b.bindArguments values rest
    (reference :: references, b)

end Bindings

end DocumentQuery
