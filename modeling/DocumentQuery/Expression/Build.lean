import DocumentQuery.Expression.Typing

/-!
# Building selects

Steps that turn one select into the next, beginning with `Select.empty`.

Main definitions:

* `Projection.of`, `Source.named`, `Source.each`, `SortKey.ascending`, `SortKey.descending`
* `Select.distinct`, `project`, `projectValue`, `fromSource`, `filter`, `orderBy`,
  `skip`, `take`
* `Select.isSimpleValue` — the select is no more than one value
-/

namespace DocumentQuery

namespace Projection

/-- A projection under an alias. An expression without a name of its own goes by
the alias. -/
def of (expression : Expression) (aliasName : String) : Projection :=
  { expression, aliasName, name := expression.accessName?.getD aliasName }

/-- The alias differs from the name that the attribute has anyway. -/
def hasCustomAlias (p : Projection) : Bool :=
  p.aliasName != "" && p.aliasName != p.name

end Projection

/-- A container as a whole. -/
def Source.named (container : Expression) (aliasName : Option String) : Source :=
  { container, aliasName, eachItem := false }

/-- The items of a container. -/
def Source.each (aliasName : String) (container : Expression) : Source :=
  { container, aliasName := some aliasName, eachItem := true }

def SortKey.ascending (expression : Expression) : SortKey := { expression, isAscending := true }

def SortKey.descending (expression : Expression) : SortKey := { expression, isAscending := false }

namespace Select

def distinct (s : Select) : Select := { s with isDistinct := true }

def project (s : Select) (p : Projection) : Select :=
  { s with projection := s.projection ++ [p] }

/-- Makes the rows bare values, in place of every projection so far. -/
def projectValue (s : Select) (expression : Expression) : Select :=
  { s with projection := [.of expression ""], singleValue := true }

def fromSource (s : Select) (source : Source) : Select :=
  { s with sources := s.sources ++ [source] }

def filter (s : Select) (predicate : Expression) : Select := { s with predicate := some predicate }

def orderBy (s : Select) (key : SortKey) : Select :=
  { s with orderings := s.orderings ++ [key] }

/-- Leaves out the first rows. -/
def skip (s : Select) (count : Expression) : Select := { s with offset := some count }

/-- Keeps no more than some rows. -/
def take (s : Select) (count : Expression) : Select := { s with limit := some count }

/-- The select is one bare value and has no clauses. -/
def isSimpleValue (s : Select) : Bool :=
  s.sources.isEmpty && s.predicate.isNone && s.offset.isNone && s.limit.isNone &&
    s.orderings.isEmpty && !s.isDistinct && s.singleValue && s.projection.length == 1

end Select

end DocumentQuery
