import DocumentQuery.Number.Digits

/-!
# Shortest decimals of a double

A double is read back from every decimal inside the interval of reals that
round to it. `Shortest.decimal` looks for the grid of fewest significant digits
that has a point in that interval; of two points on it the nearer one is taken.
All arithmetic is exact, on natural numbers.

Main definitions:

* `Binary` — a positive double as a ratio, with the half-widths of its interval
* `Shortest.decimal` — the shortest decimal that reads back
-/

namespace DocumentQuery

/-- A decimal `digits · 10 ^ exponent`. -/
structure Decimal where
  digits : Nat
  exponent : Int
deriving DecidableEq, Repr

/-- The same decimal with up to `count` trailing zeros of its digits moved into
the exponent. -/
def Decimal.trim (d : Decimal) : Nat → Decimal
  | 0 => d
  | count + 1 =>
    if d.digits % 10 = 0 then trim ⟨d.digits / 10, d.exponent + 1⟩ count else d

/-- A positive double. Everything is counted in units of `1 / unit`: the value,
and the ends of the interval of reals that round to it. -/
structure Binary where
  value : Nat
  low : Nat
  high : Nat
  unit : Nat
  /-- The ends themselves round to the double. -/
  closed : Bool

namespace Binary

/-- `mantissa · 2 ^ exponent`; below a power of two the neighbour is only half
as far away. -/
def ofParts (mantissa : Nat) (exponent : Int) (narrowBelow : Bool) : Binary :=
  let scale := twoTo (exponent - 2).toNat
  { value := 4 * mantissa * scale
    low := (4 * mantissa - if narrowBelow then 1 else 2) * scale
    high := (4 * mantissa + 2) * scale
    unit := twoTo (2 - exponent).toNat
    closed := mantissa % 2 == 0 }

/-- The double whose bits, sign aside, are `bits`. -/
def ofBits (bits : Nat) : Binary :=
  let fraction := bits % twoTo 52
  let field := bits / twoTo 52 % twoTo 11
  if field = 0 then ofParts fraction (-1074) false
  else ofParts (twoTo 52 + fraction) ((field : Int) - 1075) (fraction == 0 && field != 1)

/-- Whether `d` reads back as the double. -/
def covers (b : Binary) (d : Decimal) : Bool :=
  let point := d.digits * tenTo d.exponent.toNat * b.unit
  let scale := tenTo (-d.exponent).toNat
  if b.closed then b.low * scale ≤ point && point ≤ b.high * scale
  else b.low * scale < point && point < b.high * scale

/-- Distance of `d` from the double, in units of `1 / (unit · 10 ^ k)` where `k`
depends on the exponent of `d` alone. -/
def distance (b : Binary) (d : Decimal) : Nat :=
  let point := d.digits * tenTo d.exponent.toNat * b.unit
  let value := b.value * tenTo (-d.exponent).toNat
  max point value - min point value

/-- The exponent `e` with `10 ^ e ≤ value < 10 ^ (e + 1)`. -/
def magnitude (b : Binary) : Int :=
  if b.unit ≤ b.value then ((Digits.write (b.value / b.unit)).length : Int) - 1
  else
    match (List.range 400).find? fun k => b.unit ≤ b.value * tenTo k with
    | some k => -(k : Int)
    | none => -400

end Binary

namespace Shortest

/-- The point of the grid of spacing `10 ^ exponent` nearest to the double among
its two neighbours, if one reads back. A tie goes to the even digits. -/
def onGrid (b : Binary) (exponent : Int) : Option Decimal :=
  let below : Decimal :=
    ⟨b.value * tenTo (-exponent).toNat / (b.unit * tenTo exponent.toNat), exponent⟩
  let above : Decimal := ⟨below.digits + 1, exponent⟩
  match b.covers below, b.covers above with
  | true, true =>
    if b.distance below < b.distance above ∨
        (b.distance below = b.distance above ∧ below.digits % 2 = 0)
    then some below else some above
  | true, false => some below
  | false, true => some above
  | false, false => none

/-- Tries the grids of one significant digit more each time. -/
def search (b : Binary) : Nat → Int → Decimal
  | 0, exponent => (onGrid b exponent).getD ⟨0, 0⟩
  | more + 1, exponent =>
    match onGrid b exponent with
    | some d => d
    | none => search b more (exponent - 1)

/-- The shortest decimal that reads back as the positive double with the given
bits: seventeen significant digits always do. -/
def decimal (bits : Nat) : Decimal :=
  let b := Binary.ofBits bits
  (search b 16 b.magnitude).trim 17

end Shortest

end DocumentQuery
