import DocumentQuery.Number.Digits
import DocumentQuery.Number.Finite

/-!
# The double that a decimal numeral denotes

The leading digits of a numeral are kept as long as they fit into 64 bits.
Whole digits after them count as a power of ten, digits after the point are
dropped. The kept digits, rounded to a double, are then multiplied or divided
once by a power of ten; below `10 ^ -308` the division is done in steps.

Main definitions:

* `Numeral` — a numeral cut into its parts
* `Numeral.double?` — its value, unless it is beyond the range of doubles
-/

namespace DocumentQuery

/-- The parts of a decimal numeral. -/
structure Numeral where
  negative : Bool
  whole : List Char
  /-- Digits after the point. -/
  fraction : List Char := []
  exponent : Int := 0
  /-- Neither a point nor an exponent is written. -/
  plain : Bool := true
deriving DecidableEq, Repr

namespace Numeral

/-- Appends digits to `n` while the result is below 2^64; gives the result and
the number of digits left over. -/
def keep (n : Nat) : List Char → Nat × Nat
  | [] => (n, 0)
  | c :: cs =>
    let next := 10 * n + Digits.digit c
    if next < twoTo 64 then keep next cs else (n, cs.length + 1)

/-- The digits that are kept, and the power of ten that they stand before. -/
def significand (numeral : Numeral) : Nat × Int :=
  let (n, beyond) := keep 0 numeral.whole
  let (n, dropped) := keep n numeral.fraction
  (n, beyond - ((numeral.fraction.length : Int) - dropped) + numeral.exponent)

def powerOfTen (exponent : Nat) : Float := Float.ofScientific 1 false exponent

/-- `x · 10 ^ exponent`, dividing at most `steps` times by `10 ^ 308` first. A product may
be infinite. -/
def scale (x : Float) : Nat → Int → Option Float
  | steps, exponent =>
    if exponent.natAbs ≤ 308 then
      some <| if exponent < 0 then x / powerOfTen exponent.natAbs
        else x * powerOfTen exponent.natAbs
    else if x == 0 then some x
    else if 0 < exponent then none
    else
      match steps with
      | 0 => some 0
      | more + 1 => scale (x / powerOfTen 308) more (exponent + 308)

/-- Three divisions by `10 ^ 308` leave zero of any 64-bit number. -/
def double? (numeral : Numeral) : Option FiniteDouble := do
  let (n, exponent) := numeral.significand
  let x ← scale (UInt64.ofNat n).toFloat 3 exponent
  FiniteDouble.ofFloat? (if numeral.negative then -x else x)

/-- The integer that a plain numeral denotes, if a signed or unsigned 64-bit
integer holds it. Negative zero is no integer. -/
def integer? (numeral : Numeral) : Option Int :=
  let n := Digits.value numeral.whole
  if numeral.plain = false then none
  else if numeral.negative then
    if 0 < n ∧ n ≤ twoTo 63 then some (-(n : Int)) else none
  else if n < twoTo 64 then some n else none

end Numeral

end DocumentQuery
