import Mathlib.Tactic.FieldSimp
import Tptp.Proofs.Numbers.Digits

/-!
# Number Literals

What a number is written as, what it is read as, and what it denotes.

Whether a decimal is read as an integer does not show in its pieces one by one. It depends on
the exponent that its last digit has, once the fraction has been taken off the exponent behind
the mark: an integer may be written with both, and a number with neither is one. The digits of
a decimal are kept as they are, but not the zeros in front, so its coefficient tells how
precisely it was written.

What a literal denotes is put in terms of its pieces alone: the digits in front of the point,
those behind it, the sign and the power of ten.

## Main definitions

* `NumberLiteral`: The pieces of a fraction or a decimal.
* `NumberLiteral.InLimits`: The numbers in it can be held.
* `NumberLiteral.ReadsAs`: What a literal is read as.
* `NumberLiteral.toRat`, `Number.toRat`: The number that a literal denotes, and that is meant
  by what is read.

## Theorems

* `DecimalLiteral.Valid.eq_value_iff`: What a decimal is known by.
* `NumberLiteral.readsAs_iff`: A literal is read as one number.
* `NumberLiteral.toRat_number`: Reading keeps what is denoted.
-/

namespace Tptp

/-- The number that a decimal denotes. -/
def Decimal.toRat (d : Decimal) : ℚ :=
  d.signedCoefficient * 10 ^ d.exponent

/-- The number that is meant. -/
def Number.toRat : Number → ℚ
  | .integer value => value
  | .rational numerator denominator => numerator / denominator
  | .real value => value.toRat

namespace DecimalLiteral

/-- All digits in front of the exponent. -/
def digits (literal : DecimalLiteral) : List Char :=
  literal.whole ++ literal.fraction.getD []

/-- The exponent behind the mark, or zero. -/
def power (literal : DecimalLiteral) : Int :=
  (literal.exponent.map ExponentLiteral.value).getD 0

/-- The exponent of the last digit. -/
def lastPower (literal : DecimalLiteral) : Int :=
  literal.power - (literal.fraction.getD []).length

end DecimalLiteral

/-- The pieces of a number: a fraction with layout in front of the slash, or a decimal. -/
inductive NumberLiteral where
  | fraction (sign : Option Char) (above gap below : List Char)
  | decimal (literal : DecimalLiteral)

namespace NumberLiteral

/-- The characters of a literal. -/
def chars : NumberLiteral → List Char
  | fraction sign above gap below => sign.toList ++ (above ++ (gap ++ '/' :: below))
  | decimal literal => literal.chars

/-- The pieces are what they should be. The denominator is not zero. -/
def Valid : NumberLiteral → Prop
  | fraction sign above gap below => IsSign sign ∧ Digits above ∧ Reading.Gap gap ∧
      Digits below ∧ ∃ c ∈ below, c ≠ '0'
  | decimal literal => literal.Valid

/-- No integer is longer than is read, and a decimal lies within the bounds of what can be
    held. -/
def InLimits : NumberLiteral → Prop
  | fraction _ above _ below => above.length ≤ Numeral.digitLimit ∧
      below.length ≤ Numeral.digitLimit
  | decimal literal => literal.whole.length ≤ Numeral.digitLimit ∧
      literal.value.isRepresentable = true

/-- What a literal is read as. A fraction is not reduced, and a decimal is an integer if its
    last digit stands for ones. -/
inductive ReadsAs : NumberLiteral → Number → Prop where
  | rational (sign : Option Char) (above gap below : List Char) :
      ReadsAs (.fraction sign above gap below)
        (.rational (signedValue sign (Numeral.value above)) (Numeral.value below))
  | integer {literal : DecimalLiteral} (h : literal.lastPower = 0) :
      ReadsAs (.decimal literal)
        (.integer (signedValue literal.sign (Numeral.value literal.digits)))
  | real {literal : DecimalLiteral} {d : Decimal} (h : literal.lastPower ≠ 0)
      (hsign : d.negative = true ↔ literal.sign = some '-')
      (hdigits : d.digits = Numeral.significant literal.digits)
      (hexponent : d.exponent = literal.lastPower) : ReadsAs (.decimal literal) (.real d)

/-- The factor of a sign. -/
def signFactor (sign : Option Char) : ℚ :=
  if sign = some '-' then -1 else 1

/-- The number that a literal denotes. -/
def toRat : NumberLiteral → ℚ
  | fraction sign above _ below =>
      signFactor sign * Numeral.value above / Numeral.value below
  | decimal literal =>
      signFactor literal.sign *
        (Numeral.value literal.whole + Numeral.fraction (literal.fraction.getD [])) *
        10 ^ literal.power

/-- A sign in front is a factor. -/
theorem cast_signedValue (sign : Option Char) (value : Nat) :
    (signedValue sign value : ℚ) = signFactor sign * value := by
  rw [signedValue, signFactor]
  split
  · rw [Int.cast_neg, Int.cast_natCast, neg_one_mul]
  · rw [Int.cast_natCast, one_mul]

/-- Without the point, what a decimal denotes is an integer and a power of ten. -/
theorem toRat_decimal (literal : DecimalLiteral) :
    (decimal literal).toRat =
      signedValue literal.sign (Numeral.value literal.digits) * 10 ^ literal.lastPower := by
  have hten : (10 : ℚ) ≠ 0 := by norm_num
  -- What the digits behind the point count less, the last exponent is less.
  have hfraction := Numeral.fraction_mul_pow (literal.fraction.getD [])
  rw [toRat, cast_signedValue, DecimalLiteral.digits, Numeral.value_append,
    DecimalLiteral.lastPower, zpow_sub₀ hten, zpow_natCast]
  push_cast
  rw [← hfraction]
  field_simp

end NumberLiteral

namespace DecimalLiteral

/-- The digits of a decimal are digits. -/
theorem Valid.isDigit {literal : DecimalLiteral} (h : literal.Valid) :
    ∀ c ∈ literal.digits, c.isDigit = true := by
  rw [digits, List.forall_mem_append]
  refine ⟨h.whole.2, ?_⟩
  rcases hfraction : literal.fraction with _ | digits
  · exact fun c hc => absurd hc List.not_mem_nil
  · exact (h.fraction digits hfraction).2

/-- The coefficient with its sign is what the digits with the sign in front denote. -/
theorem signedCoefficient_value (literal : DecimalLiteral) :
    literal.value.signedCoefficient =
      signedValue literal.sign (Numeral.value literal.digits) := by
  rw [Decimal.signedCoefficient, signedValue]
  simp only [value, digits, decide_eq_true_eq]

/-- A decimal is an integer if its last digit stands for ones. -/
theorem ofDecimal_value (literal : DecimalLiteral) :
    Number.ofDecimal literal.value =
      if literal.lastPower = 0 then
        .integer (signedValue literal.sign (Numeral.value literal.digits))
      else .real literal.value := by
  rw [Number.ofDecimal, signedCoefficient_value]
  rfl

/-- A decimal is known by its sign, its digits without the zeros in front, and its last
    exponent. -/
theorem Valid.eq_value_iff {literal : DecimalLiteral} (h : literal.Valid) {d : Decimal} :
    d = literal.value ↔ (d.negative = true ↔ literal.sign = some '-') ∧
      d.digits = Numeral.significant literal.digits ∧ d.exponent = literal.lastPower := by
  rcases d with ⟨negative, coefficient, exponent⟩
  have hnegative : (negative = true ↔ literal.sign = some '-') ↔
      negative = literal.value.negative := by
    refine Iff.symm (Bool.eq_iff_iff.trans ?_)
    rw [value, decide_eq_true_eq]
  -- Every number has digits of its own, so the digits tell the coefficient.
  have hcoefficient : Numeral.digits coefficient = Numeral.significant literal.digits ↔
      coefficient = literal.value.coefficient := by
    rw [← Numeral.digits_value h.isDigit]
    refine ⟨fun hdigits => ?_, congrArg Numeral.digits⟩
    rw [← Numeral.value_digits coefficient, hdigits, Numeral.value_digits]
    rfl
  rw [hnegative, Decimal.digits, hcoefficient]
  exact Decimal.mk.injEq .. ▸ Iff.rfl

end DecimalLiteral

namespace NumberLiteral

/-- The one number that a literal is read as. -/
def number : NumberLiteral → Number
  | fraction sign above _ below =>
      .rational (signedValue sign (Numeral.value above)) (Numeral.value below)
  | decimal literal => .ofDecimal literal.value

/-- A literal is read as one number. -/
theorem readsAs_iff {literal : NumberLiteral} (h : literal.Valid) {n : Number} :
    literal.ReadsAs n ↔ n = literal.number := by
  cases literal with
  | fraction sign above gap below =>
      constructor
      · rintro ⟨⟩
        rfl
      · rintro rfl
        exact .rational sign above gap below
  | decimal literal =>
      rw [number, DecimalLiteral.ofDecimal_value]
      constructor
      · intro hread
        cases hread with
        | integer hzero => rw [if_pos hzero]
        | real hne hsign hdigits hexponent =>
            rw [if_neg hne, (DecimalLiteral.Valid.eq_value_iff h).mpr ⟨hsign, hdigits, hexponent⟩]
      · rintro rfl
        split
        · next hzero => exact .integer hzero
        · next hne =>
            rcases (DecimalLiteral.Valid.eq_value_iff h).mp rfl with ⟨hsign, hdigits, hexponent⟩
            exact .real hne hsign hdigits hexponent

/-- Reading keeps what is denoted. -/
theorem toRat_number (literal : NumberLiteral) : literal.number.toRat = literal.toRat := by
  cases literal with
  | fraction sign above gap below => rw [number, Number.toRat, cast_signedValue, toRat]
  | decimal literal =>
      rw [number, DecimalLiteral.ofDecimal_value, toRat_decimal]
      split
      · next hzero => rw [hzero, zpow_zero, mul_one, Number.toRat]
      · rw [Number.toRat, Decimal.toRat, DecimalLiteral.signedCoefficient_value]
        rfl

end NumberLiteral

end Tptp
