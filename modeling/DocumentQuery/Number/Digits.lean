import DocumentQuery.Number.Power

/-!
# Digits

Reading and writing natural numbers in decimal digits, and the values of
hexadecimal digits.

Main definitions:

* `Digits.span` — a text cut where its leading run of digits ends
* `Digits.value` — the number that a run of digits denotes
* `Digits.write` — the digits of a number, without leading zeros
* `Digits.hexDigit`, `Digits.hexValue?`
-/

namespace DocumentQuery.Digits

/-- The number that one digit stands for. -/
def digit (c : Char) : Nat := c.toNat - '0'.toNat

/-- The leading digits of a text, and what follows them. -/
def span : List Char → List Char × List Char
  | [] => ([], [])
  | c :: cs =>
    if c.isDigit then
      let (digits, rest) := span cs
      (c :: digits, rest)
    else ([], c :: cs)

/-- The number that digits denote after the digits of `n`. -/
def valueFrom (n : Nat) (digits : List Char) : Nat :=
  digits.foldl (fun n c => 10 * n + digit c) n

def value (digits : List Char) : Nat := valueFrom 0 digits

def write (n : Nat) : List Char := n.repr.toList

/-- Sign and digits of an integer. -/
def writeInt (n : Int) : List Char :=
  if n < 0 then '-' :: write n.natAbs else write n.natAbs

/-- The value of a text that consists of digits only, at least one of them,
and denotes a number below 2^64. -/
def word? (text : List Char) : Option Nat :=
  if text ≠ [] ∧ text.all Char.isDigit ∧ value text < twoTo 64 then some (value text)
  else none

/-! ## Hexadecimal digits -/

/-- The digit for a number below sixteen, in lower case. -/
def hexDigit (n : Nat) : Char := (Nat.toDigits 16 n).headD '0'

/-- The value of a hexadecimal digit in either case. -/
def hexValue? (c : Char) : Option Nat :=
  if '0' ≤ c ∧ c ≤ '9' then some (c.toNat - '0'.toNat)
  else if 'a' ≤ c ∧ c ≤ 'f' then some (c.toNat - 'a'.toNat + 10)
  else if 'A' ≤ c ∧ c ≤ 'F' then some (c.toNat - 'A'.toNat + 10)
  else none

end DocumentQuery.Digits
