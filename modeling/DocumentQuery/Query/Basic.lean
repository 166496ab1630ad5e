import DocumentQuery.Json.Printer

/-!
# Queries

A query as it is sent to the store: its text, and the payloads of the
parameters that the text names.

Main definitions:

* `Parameter`, `Query`
* `Query.toJson` — a query as a document
* `Query.display` — a query for a reader: a line for each parameter, an empty
  line, the text
* `GeneratorOptions`
-/

namespace DocumentQuery

/-- A payload under the name that the text refers to. -/
structure Parameter where
  name : String
  value : Json
deriving Inhabited

structure Query where
  text : String
  parameters : List Parameter
deriving Inhabited

def Parameter.toJson (p : Parameter) : Json :=
  .obj [("name", .str p.name), ("value", p.value)]

/-- The line that shows a parameter. -/
def Parameter.display (p : Parameter) : String :=
  p.name ++ "='" ++ p.value.compact ++ "'\n"

namespace Query

def toJson (q : Query) : Json :=
  .obj [("query", .str q.text), ("parameters", .arr (q.parameters.map Parameter.toJson))]

def display (q : Query) : String :=
  String.join (q.parameters.map Parameter.display) ++
    (if q.parameters.isEmpty then "" else "\n") ++ q.text

end Query

/-- What may be chosen about the text of queries. -/
structure GeneratorOptions where
  /-- Spaces per level in nested queries and object projections. -/
  indentSize : Nat := 2
deriving DecidableEq, Inhabited, Repr

def GeneratorOptions.toJson (o : GeneratorOptions) : Json :=
  .obj [("indent_size", .int o.indentSize)]

end DocumentQuery
