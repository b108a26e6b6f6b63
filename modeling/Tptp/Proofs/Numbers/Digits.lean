import Mathlib.Algebra.Field.Rat
import Mathlib.Tactic.Ring
import Tptp.Proofs.Lexical.Number

/-!
# What Digits Denote

Digit strings on both sides of a point.

In front of a point the digits are taken together from the left, each one shifting those
before it. Behind a point each digit counts a tenth of the one before it. A string of `n`
digits denotes `10 ^ n` times as much in front of the point as behind it.

Zeros at the start change nothing in front of a point. Once there is a digit that is no zero,
every further digit shows in the number, so the number is written with just the digits from
there on.

## Main definitions

* `Numeral.fraction`: The number that digits behind a point denote.
* `Numeral.significant`: A digit string without superfluous zeros.

## Theorems

* `Numeral.fraction_mul_pow`: Moving the point.
* `Numeral.value_eq_zero_iff`, `Numeral.value_ne_zero_iff`: Only zeros denote zero.
* `Numeral.digits_value`: The digits of the number that a digit string denotes.
-/

namespace Tptp

namespace Numeral

/-- The number that digits behind a point denote. -/
def fraction : List Char → ℚ
  | [] => 0
  | c :: rest => (digitValue c + fraction rest) / 10

/-- A digit string without the zeros in front. Of zeros alone one is left. -/
def significant (digits : List Char) : List Char :=
  match digits.dropWhile (· == '0') with
  | [] => ['0']
  | c :: rest => c :: rest

/-- The first digit is shifted by the others. -/
theorem value_cons (c : Char) (rest : List Char) :
    value (c :: rest) = digitValue c * 10 ^ rest.length + value rest := by
  rw [← valueFrom_eq]
  exact congrArg (valueFrom · rest) (Nat.zero_add _)

/-- Digits denote a power of ten more in front of a point than behind it. -/
theorem fraction_mul_pow (digits : List Char) :
    fraction digits * 10 ^ digits.length = value digits := by
  induction digits with
  | nil => rw [fraction, zero_mul]; rfl
  | cons c rest ih =>
      rw [value_cons, fraction, List.length_cons, pow_succ]
      push_cast
      rw [← ih]
      ring

theorem digitValue_lt {c : Char} (h : c.isDigit = true) : digitValue c < 10 := by
  have hzero : '0'.toNat = 48 := rfl
  rw [Text.isDigit_iff] at h
  rw [digitValue, hzero]
  omega

/-- A digit is the digit of its number. -/
theorem digitChar_digitValue {c : Char} (h : c.isDigit = true) :
    (digitValue c).digitChar = c := by
  have hzero : '0'.toNat = 48 := rfl
  refine Char.toNat_inj.mp ?_
  rw [Nat.toNat_digitChar_of_lt_ten (digitValue_lt h), digitValue, hzero]
  rw [Text.isDigit_iff] at h
  omega

/-- The number of a digit is written with that digit. -/
theorem digits_digitValue {c : Char} (h : c.isDigit = true) : digits (digitValue c) = [c] := by
  rw [digits, Nat.toDigits_of_lt_base (digitValue_lt h), digitChar_digitValue h]

/-- Only the digit zero denotes zero. -/
theorem digitValue_eq_zero_iff {c : Char} (h : c.isDigit = true) : digitValue c = 0 ↔ c = '0' := by
  refine ⟨fun hzero => ?_, fun hzero => hzero ▸ rfl⟩
  rw [← digitChar_digitValue h, hzero]
  rfl

/-- Only zeros denote zero. -/
theorem value_eq_zero_iff {digits : List Char} (h : ∀ c ∈ digits, c.isDigit = true) :
    value digits = 0 ↔ ∀ c ∈ digits, c = '0' := by
  induction digits with
  | nil => exact ⟨fun _ _ hc => absurd hc List.not_mem_nil, fun _ => rfl⟩
  | cons c rest ih =>
      rw [List.forall_mem_cons] at h
      have hpow : 10 ^ rest.length ≠ 0 := Nat.ne_of_gt (Nat.pow_pos (by decide))
      rw [value_cons, Nat.add_eq_zero_iff, Nat.mul_eq_zero, or_iff_left hpow, ih h.2,
        digitValue_eq_zero_iff h.1, List.forall_mem_cons]

theorem value_ne_zero_iff {digits : List Char} (h : ∀ c ∈ digits, c.isDigit = true) :
    value digits ≠ 0 ↔ ∃ c ∈ digits, c ≠ '0' := by
  simp only [ne_eq, value_eq_zero_iff h, not_forall, exists_prop]

/-- Digits behind a positive number go on with its digits. -/
theorem digits_valueFrom {high : Nat} (hhigh : 0 < high) {rest : List Char}
    (h : ∀ c ∈ rest, c.isDigit = true) : digits (valueFrom high rest) = digits high ++ rest := by
  induction rest generalizing high with
  | nil => exact (List.append_nil _).symm
  | cons c rest ih =>
      rw [List.forall_mem_cons] at h
      have hshift : digits (10 * high + digitValue c) = digits high ++ [c] := by
        rw [← digits_digitValue h.1]
        exact (Nat.toDigits_append_toDigits (by decide) hhigh (digitValue_lt h.1)).symm
      calc digits (valueFrom high (c :: rest))
        _ = digits (valueFrom (10 * high + digitValue c) rest) := rfl
        _ = digits (10 * high + digitValue c) ++ rest := ih (by omega) h.2
        _ = digits high ++ c :: rest := by rw [hshift, List.append_assoc]; rfl

/-- The number that a digit string denotes is written without the zeros in front. -/
theorem digits_value {chars : List Char} (h : ∀ c ∈ chars, c.isDigit = true) :
    digits (value chars) = significant chars := by
  induction chars with
  | nil => rfl
  | cons c rest ih =>
      rw [List.forall_mem_cons] at h
      by_cases hzero : c = '0'
      · subst hzero
        rw [value_zero_cons]
        exact ih h.2
      -- The first digit shows in the number, and so do the others behind it.
      · have hpos : 0 < digitValue c :=
          Nat.pos_of_ne_zero (mt (digitValue_eq_zero_iff h.1).mp hzero)
        have hvalue : value (c :: rest) = valueFrom (digitValue c) rest :=
          congrArg (valueFrom · rest) (Nat.zero_add _)
        rw [hvalue, digits_valueFrom hpos h.2, digits_digitValue h.1, significant,
          List.dropWhile_cons_of_neg (by rwa [beq_iff_eq])]
        rfl

end Numeral

end Tptp
