/-!
# Doubles that are numbers

Only a finite double has digits. A document holds no other, so those that it holds carry
that they are.

Main definitions:

* `FiniteDouble`, `FiniteDouble.ofFloat?`
-/

namespace DocumentQuery

/-- A double that is neither an infinity nor NaN. -/
structure FiniteDouble where
  toFloat : Float
  finite : toFloat.isFinite = true
deriving Repr

def FiniteDouble.ofFloat? (x : Float) : Option FiniteDouble :=
  if h : x.isFinite = true then some ⟨x, h⟩ else none

end DocumentQuery
