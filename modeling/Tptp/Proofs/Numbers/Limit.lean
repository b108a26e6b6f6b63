import Tptp.Proofs.Lexical.Number

/-!
# Numbers That Cannot Be Held

Where reading a number is given up.

A number is first tried as a fraction, so its leading digits are read as an integer even
where they turn out to start a decimal. If they are too many, reading is given up there, and
no decimal is looked for. The denominator of a fraction is an integer as well. What a decimal
denotes may be out of range on top of that, however few digits it has.

## Theorems

* `givesUp_signedInteger`, `givesUp_integer`: Integers with too many digits.
* `givesUp_number_of_leading`: Numbers with too many leading digits.
* `givesUp_number_of_denominator`: Fractions with too many digits behind the slash.
* `givesUp_number_of_decimal`: Decimals out of range.
-/

namespace Tptp

namespace Reading

variable {sign : Option Char} {digits left : List Char}

theorem givesUp_integer (h : Digits digits) (hlong : Numeral.digitLimit < digits.length)
    (hleft : DigitsEnd left) :
    GivesUp (.numeralTooLong digits.length) Parser.integer (digits ++ left) := by
  have hnumeral : GivesUp (.numeralTooLong digits.length) Parser.numeral (digits ++ left) := by
    have hspan : (Rest.ofList (digits ++ left)).span Char.isDigit = digits :=
      takeWhile_isDigit h.2 hleft
    have hne : ¬ digits.isEmpty = true := mt List.isEmpty_iff.mp h.1
    simp only [GivesUp, Parser.numeral, hspan, if_neg hne, if_pos hlong, Parser.outcome_abort]
  exact .labeled _ hnumeral.bind

theorem givesUp_signedInteger (hsign : IsSign sign) (h : Digits digits)
    (hlong : Numeral.digitLimit < digits.length) (hleft : DigitsEnd left) :
    GivesUp (.numeralTooLong digits.length) Parser.signedInteger
      (sign.toList ++ (digits ++ left)) := by
  have hint := (givesUp_integer h hlong hleft).map Int.ofNat
  rcases sign with _ | c
  · exact .ifOpens_of_ne (h.head?_ne left (by decide))
      (.ifOpens_of_ne (h.head?_ne left (by decide)) hint)
  · rcases hsign c rfl with rfl | rfl
    · refine .ifOpens_of_ne ?_ (.ifOpens rfl (.then (reads_take_one '+' _).done hint))
      simp only [Option.toList_some, List.cons_append, List.head?_cons, ne_eq, Option.some.injEq,
        Char.reduceEq, not_false_eq_true]
    · exact .ifOpens rfl (.then (reads_take_one '-' _).done hint.bind)

/-- Of the two ways to go on, the fraction is tried first, and nothing is tried behind it. -/
theorem givesUp_number_of_leading (hsign : IsSign sign) (h : Digits digits)
    (hlong : Numeral.digitLimit < digits.length) (hleft : DigitsEnd left) :
    GivesUp (.numeralTooLong digits.length) Grammar.number (sign.toList ++ (digits ++ left)) :=
  .labeled _ (.orElse (.bind (givesUp_signedInteger hsign h hlong hleft)))

theorem givesUp_number_of_denominator {above gap below : List Char} (hsign : IsSign sign)
    (habove : Digits above) (hshort : above.length ≤ Numeral.digitLimit) (hgap : Gap gap)
    (hbelow : Digits below) (hlong : Numeral.digitLimit < below.length) (hleft : DigitsEnd left) :
    GivesUp (.numeralTooLong below.length) Grammar.number
      (sign.toList ++ (above ++ (gap ++ '/' :: (below ++ left)))) := by
  have hexcused : ExcusesDigits (fun _ => False) above := fun h => absurd hshort (Nat.not_le.mpr h)
  refine .labeled _ (.orElse ?_)
  refine .then (reads_numerator hsign habove hexcused hgap hbelow left).done ?_
  refine .then (reads_expect "character" "/" (below ++ left)).done ?_
  exact .bind (givesUp_integer hbelow hlong hleft)

/-- A decimal is not mistaken for the start of a fraction, so its value is looked at. -/
theorem givesUp_number_of_decimal {literal : DecimalLiteral} (h : literal.Valid)
    (hshort : literal.whole.length ≤ Numeral.digitLimit)
    (hrange : literal.value.isRepresentable = false) {middle : List Char}
    (hskips : Skips middle left) (hleft : Significant left) (hends : NumberEnds left)
    (hslash : left.head? ≠ some '/') :
    GivesUp .decimalOutOfRange Grammar.number (literal.chars ++ middle) := by
  have hexcused : ExcusesDigits (· = .decimalOutOfRange) literal.whole :=
    fun h => absurd hshort (Nat.not_le.mpr h)
  refine .labeled _ (.orElse_of_misses (misses_fraction h hexcused hskips hleft hends hslash) ?_)
  refine .then (reads_decimalLiteral h hskips hleft hends).done ?_
  rw [hrange, if_neg Bool.false_ne_true]
  rfl

end Reading

end Tptp
