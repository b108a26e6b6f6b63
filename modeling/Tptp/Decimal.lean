import Tptp.Numeral

/-!
# Decimals

Exact decimal numbers that remember how they were written.

A decimal is a sign, a coefficient and a power of ten. `1.5`, `1.50` and
`15e-1` are the same number; the first and the last are also the same decimal,
the one in between is not. A decimal is kept as it was written, zeros at the
end and the sign of zero included, and compared by its value only where values
are asked for.

What can be held is bounded: the exponent of the leading digit must not exceed
`greatestExponent`, and the exponent of the last digit must not fall below
`leastExponent`.

## Main definitions

* `Decimal`: Sign, coefficient and exponent.
* `Decimal.isRepresentable`: A decimal lies within the bounds.
* `Decimal.normal`: The one decimal of a value without zeros at the end.
* `Decimal.sameValue`: Two decimals denote the same number.
* `Decimal.text`: A decimal as it is printed.

## Theorems

* `Decimal.sameValue_refl`: A decimal denotes what it denotes.
* `Decimal.sameValue_comm`: The order of a comparison is immaterial.
-/

namespace Tptp

/-- The number `± coefficient · 10 ^ exponent`, kept as written. -/
structure Decimal where
  /-- The number was written with a minus sign. -/
  negative : Bool
  /-- The digits, read as one natural number. -/
  coefficient : Nat
  /-- The power of ten of the last digit. -/
  exponent : Int
deriving DecidableEq

namespace Decimal

/-- The greatest exponent the first digit of a decimal may have. -/
def greatestExponent : Int := 999999999999999999

/-- The least exponent the last digit of a decimal may have. -/
def leastExponent : Int := -1999999999999999997

/-- The digits of the coefficient; zero has one digit. -/
def digits (d : Decimal) : List Char :=
  Numeral.digits d.coefficient

/-- The exponent of the first digit. -/
def leadingExponent (d : Decimal) : Int :=
  d.exponent + d.digits.length - 1

/-- The decimal lies within the bounds of what can be held. -/
def isRepresentable (d : Decimal) : Bool :=
  d.leadingExponent ≤ greatestExponent && leastExponent ≤ d.exponent

/-- The coefficient with its sign. -/
def signedCoefficient (d : Decimal) : Int :=
  if d.negative then -d.coefficient else d.coefficient

/-- Moves zeros at the end of a positive coefficient into the exponent. -/
def stripZeros (coefficient : Nat) (exponent : Int) : Nat × Int :=
  if h : 0 < coefficient ∧ coefficient % 10 = 0 then
    have : coefficient / 10 < coefficient := Nat.div_lt_self h.1 (by decide)
    stripZeros (coefficient / 10) (exponent + 1)
  else (coefficient, exponent)
termination_by coefficient

/-- The one decimal of a value: no zeros at the end, and zero has neither a
    sign nor an exponent. -/
def normal (d : Decimal) : Decimal :=
  if d.coefficient = 0 then ⟨false, 0, 0⟩
  else
    let (coefficient, exponent) := stripZeros d.coefficient d.exponent
    ⟨d.negative, coefficient, exponent⟩

/-- Two decimals denote the same number. -/
def sameValue (a b : Decimal) : Bool :=
  a.normal = b.normal

/-- A decimal denotes what it denotes. -/
theorem sameValue_refl (d : Decimal) : d.sameValue d = true := by
  simp only [sameValue, decide_true]

/-- The order of a comparison is immaterial. -/
theorem sameValue_comm (a b : Decimal) : a.sameValue b = b.sameValue a := by
  simp only [sameValue, eq_comm]

/-- Digits with a decimal point before the last `places` of them; at least one
    digit stands in front of the point. -/
def pointed (digits : List Char) (places : Nat) : List Char :=
  if places = 0 then digits
  else
    let padded := List.replicate (places + 1 - digits.length) '0' ++ digits
    padded.take (padded.length - places) ++ '.' :: padded.drop (padded.length - places)

/-- The greatest number of zeros between the point and the first other digit
    that is still written out. -/
def leastPositionalExponent : Int := -6

/-- A decimal as it is printed. Without zeros to add at the end, and with few to
    add in front, all digits are written out; else one digit stands before the
    point and a signed exponent follows. -/
def text (d : Decimal) : String :=
  let sign := if d.negative then ['-'] else []
  let digits := d.digits
  let leading := d.leadingExponent
  -- A positive exponent would need zeros that were never written.
  if d.exponent ≤ 0 && leastPositionalExponent ≤ leading then
    String.ofList (sign ++ pointed digits d.exponent.natAbs)
  else
    let mantissa := pointed digits (digits.length - 1)
    let mark := if leading < 0 then ['E', '-'] else ['E', '+']
    String.ofList (sign ++ mantissa ++ mark ++ Numeral.digits leading.natAbs)

end Decimal

end Tptp
