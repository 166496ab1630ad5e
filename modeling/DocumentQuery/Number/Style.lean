import DocumentQuery.Number.Finite
import DocumentQuery.Number.Shortest

/-!
# How doubles are written

`NumberStyle` holds the decisions of a number format: which decimal exponents
are written positionally, and how an exponent is spelt. `NumberStyle.json` is
the format of the documents and queries of this library.

Main definition:

* `NumberStyle.write` — a finite double in a given style
-/

namespace DocumentQuery

/-- The decisions of a number format. The exponent of a number is that of its
first significant digit. -/
structure NumberStyle where
  /-- Least exponent that is written positionally. -/
  least : Int
  /-- Greatest exponent that is written positionally. -/
  greatest : Int
  /-- Written after the point of a whole number in positional form. -/
  wholeTail : List Char
  mark : Char
  positiveSign : List Char
  negativeSign : List Char

namespace NumberStyle

/-- Positional from `0.00001` to below `10 ^ 16`, with at least one digit after
the point; otherwise the exponent always carries its sign. -/
def json : NumberStyle where
  least := -5
  greatest := 15
  wholeTail := ['0']
  mark := 'e'
  positiveSign := ['+']
  negativeSign := ['-']

def zeros (count : Nat) : List Char := List.replicate count '0'

/-- Digits with a point after `exponent + 1` of them. -/
def positional (style : NumberStyle) (digits : List Char) (exponent : Int) : List Char :=
  if exponent < 0 then
    '0' :: '.' :: zeros (-exponent - 1).toNat ++ digits
  else
    let whole := exponent.toNat + 1
    let tail := digits.drop whole
    digits.take whole ++ zeros (whole - digits.length) ++
      '.' :: (if tail.isEmpty then style.wholeTail else tail)

/-- One digit, the others after a point, and the exponent. -/
def scientific (style : NumberStyle) (digits : List Char) (exponent : Int) : List Char :=
  let point := if digits.length ≤ 1 then [] else ['.']
  let sign := if exponent < 0 then style.negativeSign else style.positiveSign
  digits.take 1 ++ point ++ digits.drop 1 ++ style.mark :: sign ++
    Digits.write exponent.natAbs

/-- A positive decimal. -/
def writeDecimal (style : NumberStyle) (d : Decimal) : List Char :=
  let digits := Digits.write d.digits
  let exponent := d.exponent + digits.length - 1
  if style.least ≤ exponent ∧ exponent ≤ style.greatest then
    style.positional digits exponent
  else style.scientific digits exponent

/-- The shortest digits that read back, in the given style. -/
def write (style : NumberStyle) (x : FiniteDouble) : List Char :=
  let bits := x.toFloat.toBits.toNat
  let size := bits % twoTo 63
  let sign := if bits < twoTo 63 then [] else ['-']
  sign ++ if size = 0 then style.positional ['0'] 0
    else style.writeDecimal (Shortest.decimal size)

end NumberStyle

end DocumentQuery
