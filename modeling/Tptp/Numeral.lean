/-!
# Numerals

Decimal digit strings and the numbers they denote.

Digit strings of the language may start with zeros, so a number has many
spellings; `digits` gives the one without superfluous zeros.

## Main definitions

* `digitLimit`: How long an integer may be in writing.
* `value`: The number a digit string denotes.
* `digits`: The shortest digit string of a number.
* `intText`: An integer in decimal notation.
* `intText?`: The same, within the limit.

## Theorems

* `value_zero_cons`: A leading zero changes nothing.
-/

namespace Tptp

namespace Numeral

/-- The greatest number of digits that an integer is read or written with. -/
def digitLimit : Nat := 4300

/-- The number a digit denotes. -/
def digitValue (c : Char) : Nat :=
  c.toNat - '0'.toNat

/-- The number a digit string denotes, after digits that denote `high`. -/
def valueFrom (high : Nat) (digits : List Char) : Nat :=
  digits.foldl (fun n c => 10 * n + digitValue c) high

/-- The number a digit string denotes; no digits denote zero. -/
def value (digits : List Char) : Nat :=
  valueFrom 0 digits

/-- The shortest digit string of a number. -/
def digits (n : Nat) : List Char :=
  Nat.toDigits 10 n

/-- An integer in decimal notation, with a sign only if it is negative. -/
def intText (n : Int) : String :=
  String.ofList (if n < 0 then '-' :: digits n.natAbs else digits n.natAbs)

/-- An integer in decimal notation, unless it has too many digits to be written. -/
def intText? (n : Int) : Option String :=
  if (digits n.natAbs).length ≤ digitLimit then some (intText n) else none

/-- A leading zero changes nothing. -/
theorem value_zero_cons (digits : List Char) : value ('0' :: digits) = value digits := by
  rfl

end Numeral

end Tptp
