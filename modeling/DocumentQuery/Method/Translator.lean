import DocumentQuery.Query.Error

/-!
# Method calls as expressions

A method call of the host language is turned into an expression by the first
translator that knows the method.

Main definitions:

* `Method`, `Call`
* `Translator` — one family of methods
* `Translators`, `Translators.add`, `Translators.translate`
-/

namespace DocumentQuery

structure Method where
  declaringType : String
  name : String
deriving DecidableEq, Repr

structure Call where
  instanceExpression : Option Expression
  method : Method
  arguments : List Expression

/-- What a translator makes of a call; nothing if it does not know the method. -/
abbrev Translator := Call → Except QueryError (Option Expression)

/-- Translators in the order in which they are asked. -/
structure Translators where
  inOrder : List Translator

namespace Translators

/-- Adds a translator that is asked before those at hand. -/
def add (ts : Translators) (t : Translator) : Translators := ⟨t :: ts.inOrder⟩

/-- The answer of the first translator that answers with an expression or an
error. -/
def firstAnswer (call : Call) : List Translator → Except QueryError (Option Expression)
  | [] => .ok none
  | t :: ts =>
    match t call with
    | .ok none => firstAnswer call ts
    | answer => answer

def translate (ts : Translators) (call : Call) : Except QueryError (Option Expression) :=
  firstAnswer call ts.inOrder

end Translators

end DocumentQuery
