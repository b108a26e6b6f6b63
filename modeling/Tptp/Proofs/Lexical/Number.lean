import Mathlib.Algebra.Ring.Nat
import Tptp.Grammar.Term
import Tptp.Proofs.Character
import Tptp.Proofs.Lexical.Word

/-!
# Numbers, Exactly

What numbers are read from.

A fraction has its two integers on both sides of a slash, with layout in front of
the slash and none behind it. Everything else is a decimal, and the two cannot be
confused: where a decimal ends no slash follows, unless what follows is no number
at all.

## Main definitions

* `Digits`: Digit strings.
* `DecimalLiteral.Valid`: The pieces of a literal are what they should be.
* `NumberSpelling`: The spellings of a number.
* `NumberEnds`: No number goes on at the start of a text.

## Theorems

* `Numeral.value_append`: Digits put behind shift what stands before.
* `DecimalLiteral.scan?_chars`, `DecimalLiteral.valid_of_scan?`: Scanning finds valid
  literals and all of them.
* `relates_number`, `reads_number`: Numbers.
-/

namespace Tptp

namespace Numeral

/-- The digits of a number denote it. -/
theorem value_digits (n : Nat) : value (digits n) = n :=
  Nat.ofDigitChars_ten_toDigits

/-- What stands before a digit string is shifted by its length. -/
theorem valueFrom_eq (high : Nat) (digits : List Char) :
    valueFrom high digits = high * 10 ^ digits.length + value digits := by
  induction digits generalizing high with
  | nil => simp only [valueFrom, value, List.foldl_nil, List.length_nil, Nat.pow_zero,
      Nat.mul_one, Nat.add_zero]
  | cons c rest ih =>
      have h1 := ih (10 * high + digitValue c)
      have h2 := ih (10 * 0 + digitValue c)
      simp only [valueFrom, value, List.foldl_cons, List.length_cons, Nat.pow_succ] at *
      rw [h1, h2]
      grind

/-- Digits put behind shift what stands before. -/
theorem value_append (front back : List Char) :
    value (front ++ back) = value front * 10 ^ back.length + value back := by
  rw [← valueFrom_eq, value, valueFrom, List.foldl_append, valueFrom, value, valueFrom]

end Numeral

/-- A string of digits that is not empty. -/
def Digits (chars : List Char) : Prop :=
  chars ≠ [] ∧ ∀ c ∈ chars, c.isDigit = true

/-- The digits of a number are a string of digits. -/
theorem digits_digits (n : Nat) : Digits (Numeral.digits n) :=
  ⟨Nat.toDigits_ne_nil, fun _ => Nat.isDigit_of_mem_toDigits (by decide) (by decide)⟩

/-- A sign that a number may have. -/
def IsSign (sign : Option Char) : Prop :=
  ∀ c ∈ sign, c = '+' ∨ c = '-'

/-- No digit stands at the start of the text. -/
def DigitsEnd (text : List Char) : Prop :=
  ∀ c ∈ text.head?, c.isDigit = false

/-- No number goes on at the start of the text. -/
def NumberEnds (text : List Char) : Prop :=
  ∀ c ∈ text.head?, Text.isWordChar c = false ∧ c ≠ '.'

/-- Digits are taken up to their end. -/
theorem takeWhile_isDigit {digits left : List Char} (h : ∀ c ∈ digits, c.isDigit = true)
    (hleft : DigitsEnd left) : (digits ++ left).takeWhile Char.isDigit = digits := by
  rw [List.takeWhile_append_of_pos h]
  rcases left with _ | ⟨c, left⟩
  · rw [List.takeWhile_nil, List.append_nil]
  · rw [List.takeWhile_cons, hleft c rfl, if_neg Bool.false_ne_true, List.append_nil]

theorem NumberEnds.digitsEnd {text : List Char} (h : NumberEnds text) : DigitsEnd text := by
  intro c hc
  rcases hd : c.isDigit with _ | _
  · rfl
  · exact absurd (Text.isWordChar_of_isDigit hd) (by rw [(h c hc).1]; exact Bool.false_ne_true)

/-- A digit string starts with a digit. -/
theorem Digits.exists_cons {chars : List Char} (h : Digits chars) :
    ∃ c rest, chars = c :: rest ∧ c.isDigit = true := by
  rcases chars with _ | ⟨c, rest⟩
  · exact absurd rfl h.1
  · exact ⟨c, rest, rfl, h.2 c List.mem_cons_self⟩

/-- No sign stands in front of a digit string. -/
theorem Digits.head?_ne {chars : List Char} (h : Digits chars) (left : List Char) {c : Char}
    (hc : c.isDigit = false) : (chars ++ left).head? ≠ some c := by
  rcases h.exists_cons with ⟨d, rest, rfl, hd⟩
  rw [List.cons_append, List.head?_cons, ne_eq, Option.some.injEq]
  rintro rfl
  exact absurd (hc.symm.trans hd) Bool.false_ne_true

namespace DecimalLiteral

/-- The pieces of the literal are what they should be. -/
structure Valid (literal : DecimalLiteral) : Prop where
  sign : IsSign literal.sign
  whole : Digits literal.whole
  fraction : ∀ digits ∈ literal.fraction, Digits digits
  exponent : ∀ e ∈ literal.exponent, (e.mark = 'e' ∨ e.mark = 'E') ∧ IsSign e.sign ∧
    Digits e.digits

/-- A text starts with a sign of its own. -/
theorem signOf_append {sign : Option Char} (hsign : IsSign sign) {digits left : List Char}
    (hdigits : Digits digits) : signOf (sign.toList ++ (digits ++ left)) = sign := by
  rcases sign with _ | c
  · rcases hdigits.exists_cons with ⟨d, rest, rfl, hd⟩
    have hplus : d ≠ '+' := by rintro rfl; exact absurd hd (by decide)
    have hminus : d ≠ '-' := by rintro rfl; exact absurd hd (by decide)
    simp only [Option.toList_none, List.nil_append, List.cons_append, signOf, List.head?_cons,
      Option.filter, hplus, hminus, decide_false, Bool.or_self, Bool.false_eq_true, if_false]
  · have hc : (decide (c = '+') || decide (c = '-')) = true := by
      simp only [Bool.or_eq_true, decide_eq_true_eq]
      exact hsign c rfl
    simp only [Option.toList_some, List.cons_append, signOf, List.head?_cons, Option.filter, hc,
      if_true]

theorem isSign_signOf (text : List Char) : IsSign (signOf text) := by
  intro c hc
  have h := (Option.filter_eq_some_iff.mp (Option.mem_def.mp hc)).2
  simpa only [Bool.or_eq_true, decide_eq_true_eq] using h

/-- A fraction is found in front of what cannot go on with it. -/
theorem fractionOf_append {fraction : Option (List Char)}
    (h : ∀ digits ∈ fraction, Digits digits) {left : List Char} (hleft : DigitsEnd left)
    (hpoint : left.head? ≠ some '.') :
    fractionOf (fractionChars fraction ++ left) = fraction := by
  rcases fraction with _ | digits
  · simp only [fractionChars, List.nil_append]
    rw [fractionOf.eq_def]
    split
    · exact absurd rfl hpoint
    · rfl
  · have hdigits := h digits rfl
    simp only [fractionChars, List.cons_append, fractionOf]
    rw [takeWhile_isDigit hdigits.2 hleft, List.isEmpty_eq_false_iff.mpr hdigits.1,
      if_neg Bool.false_ne_true]

theorem digits_of_fractionOf {text digits : List Char} (h : fractionOf text = some digits) :
    Digits digits := by
  rw [fractionOf.eq_def] at h
  split at h
  · dsimp only at h
    split at h
    · exact absurd h (by simp only [reduceCtorEq, not_false_eq_true])
    · next rest hne =>
        rw [Option.some.injEq] at h
        refine h ▸ ⟨fun hnil => hne (List.isEmpty_iff.mpr hnil), ?_⟩
        exact List.all_eq_true.mp List.all_takeWhile
  · exact absurd h (by simp only [reduceCtorEq, not_false_eq_true])

/-- An exponent is found in front of what cannot go on with it. -/
theorem exponentOf_append {exponent : Option ExponentLiteral}
    (h : ∀ e ∈ exponent, (e.mark = 'e' ∨ e.mark = 'E') ∧ IsSign e.sign ∧ Digits e.digits)
    {left : List Char} (hleft : NumberEnds left) :
    exponentOf ((exponent.map ExponentLiteral.chars).getD [] ++ left) = exponent := by
  rcases exponent with _ | ⟨mark, sign, digits⟩
  · simp only [Option.map_none, Option.getD_none, List.nil_append]
    rcases left with _ | ⟨c, left⟩
    · rfl
    · have hc := (hleft c rfl).1
      have hsmall : c ≠ 'e' := by rintro rfl; exact absurd hc (by decide)
      have hlarge : c ≠ 'E' := by rintro rfl; exact absurd hc (by decide)
      simp only [exponentOf, hsmall, hlarge, decide_false, Bool.or_self, Bool.false_eq_true,
        if_false]
  · rcases h _ rfl with ⟨hmark, hsign, hdigits⟩
    simp only at hmark hsign hdigits
    have hletter : (decide (mark = 'e') || decide (mark = 'E')) = true := by
      simp only [Bool.or_eq_true, decide_eq_true_eq]
      exact hmark
    simp only [Option.map_some, Option.getD_some, ExponentLiteral.chars, List.cons_append,
      exponentOf, if_pos hletter, List.append_assoc, signOf_append hsign hdigits, List.drop_left,
      takeWhile_isDigit hdigits.2 hleft.digitsEnd, List.isEmpty_eq_false_iff.mpr hdigits.1,
      Bool.false_eq_true, if_false]

theorem valid_of_exponentOf {text : List Char} {e : ExponentLiteral}
    (h : exponentOf text = some e) :
    (e.mark = 'e' ∨ e.mark = 'E') ∧ IsSign e.sign ∧ Digits e.digits := by
  rcases text with _ | ⟨mark, rest⟩
  · exact absurd h (by simp only [exponentOf, reduceCtorEq, not_false_eq_true])
  · simp only [exponentOf] at h
    split at h
    · next hmark =>
        split at h
        · exact absurd h (by simp only [reduceCtorEq, not_false_eq_true])
        · next hne =>
            rw [Option.some.injEq] at h
            simp only [Bool.or_eq_true, decide_eq_true_eq] at hmark
            refine h ▸ ⟨hmark, isSign_signOf rest, fun hnil => hne (List.isEmpty_iff.mpr hnil), ?_⟩
            exact List.all_eq_true.mp List.all_takeWhile
    · exact absurd h (by simp only [reduceCtorEq, not_false_eq_true])

/-- What is scanned is a valid literal. -/
theorem valid_of_scan? {text : List Char} {literal : DecimalLiteral}
    (h : scan? text = some literal) : literal.Valid := by
  simp only [scan?] at h
  split at h
  · exact absurd h (by simp only [reduceCtorEq, not_false_eq_true])
  · next hne =>
      rw [Option.some.injEq] at h
      refine h ▸ ⟨isSign_signOf text, ⟨fun hnil => hne (List.isEmpty_iff.mpr hnil), ?_⟩, ?_, ?_⟩
      · exact List.all_eq_true.mp List.all_takeWhile
      · exact fun digits hdigits => digits_of_fractionOf hdigits
      · exact fun e he => valid_of_exponentOf he

/-- Behind the digits and the fraction of a literal no digit and no point follows. -/
theorem exponent_or_end {exponent : Option ExponentLiteral}
    (h : ∀ e ∈ exponent, e.mark = 'e' ∨ e.mark = 'E') {left : List Char}
    (hleft : NumberEnds left) :
    ∀ c ∈ ((exponent.map ExponentLiteral.chars).getD [] ++ left).head?,
      c.isDigit = false ∧ c ≠ '.' := by
  intro c hc
  rcases exponent with _ | e
  · exact ⟨hleft.digitsEnd c hc, (hleft c hc).2⟩
  · simp only [Option.map_some, Option.getD_some, ExponentLiteral.chars, List.cons_append,
      List.head?_cons, Option.mem_some_iff] at hc
    rcases h e rfl with hmark | hmark
    · rw [← hc, hmark]
      decide
    · rw [← hc, hmark]
      decide

/-- Behind the digits of a literal no digit follows. -/
theorem digitsEnd_tail {literal : DecimalLiteral} (h : literal.Valid) {left : List Char}
    (hleft : NumberEnds left) :
    DigitsEnd (fractionChars literal.fraction ++
      ((literal.exponent.map ExponentLiteral.chars).getD [] ++ left)) := by
  rcases hfraction : literal.fraction with _ | digits
  · exact fun c hc => (exponent_or_end (fun e he => (h.exponent e he).1) hleft c hc).1
  · intro c hc
    rw [fractionChars, List.cons_append, List.head?_cons, Option.mem_some_iff] at hc
    exact hc ▸ by decide

/-- A valid literal is scanned in front of what cannot go on with it. -/
theorem scan?_chars {literal : DecimalLiteral} (h : literal.Valid) {left : List Char}
    (hleft : NumberEnds left) : scan? (literal.chars ++ left) = some literal := by
  have hend := exponent_or_end (fun e he => (h.exponent e he).1) hleft
  have hdigits := digitsEnd_tail h hleft
  have hfraction := fractionOf_append h.fraction (fun c hc => (hend c hc).1)
    fun hpoint => (hend '.' hpoint).2 rfl
  simp only [chars, List.append_assoc, scan?, signOf_append h.sign h.whole, List.drop_left,
    takeWhile_isDigit h.whole.2 hdigits, hfraction, exponentOf_append h.exponent hleft,
    List.isEmpty_eq_false_iff.mpr h.whole.1, Bool.false_eq_true, if_false]

end DecimalLiteral

/-- An integer with a sign in front. -/
def signedValue (sign : Option Char) (value : Nat) : Int :=
  if sign = some '-' then -value else value

/-- The spellings of a number. -/
inductive NumberSpelling : List Char → Number → Prop where
  | decimal {literal : DecimalLiteral} (h : literal.Valid) :
      NumberSpelling literal.chars (.ofDecimal literal.value)
  | fraction {sign : Option Char} {above gap below : List Char} (hsign : IsSign sign)
      (habove : Digits above) (hgap : Reading.Gap gap) (hbelow : Digits below)
      (hpos : Numeral.value below ≠ 0) :
      NumberSpelling (sign.toList ++ (above ++ (gap ++ '/' :: below)))
        (.rational (signedValue sign (Numeral.value above)) (Numeral.value below))

/-- A number opens with a digit or a sign. -/
theorem NumberSpelling.exists_cons {spelling : List Char} {n : Number}
    (h : NumberSpelling spelling n) :
    ∃ c rest, spelling = c :: rest ∧ (c.isDigit || c == '+' || c == '-') = true := by
  have hsigned : ∀ {sign : Option Char} {digits : List Char} (tail : List Char), IsSign sign →
      Digits digits → ∃ c rest, sign.toList ++ (digits ++ tail) = c :: rest ∧
        (c.isDigit || c == '+' || c == '-') = true := by
    intro sign digits tail hsign hdigits
    rcases sign with _ | c
    · rcases hdigits.exists_cons with ⟨d, rest, rfl, hd⟩
      refine ⟨d, rest ++ tail, rfl, ?_⟩
      rw [hd, Bool.true_or, Bool.true_or]
    · refine ⟨c, digits ++ tail, rfl, ?_⟩
      rcases hsign c rfl with rfl | rfl <;> decide
  cases h with
  | @decimal literal hvalid =>
      simp only [DecimalLiteral.chars, List.append_assoc]
      exact hsigned _ hvalid.sign hvalid.whole
  | fraction hsign habove _ _ _ => exact hsigned _ hsign habove

/-- No literal is found where the text opens as no number does. -/
theorem DecimalLiteral.scan?_eq_none {text : List Char}
    (h : ∀ c ∈ text.head?, (c.isDigit || c == '+' || c == '-') = false) : scan? text = none := by
  rcases hscan : scan? text with _ | literal
  · rfl
  · rcases isPrefix_chars hscan with ⟨tail, rfl⟩
    rcases NumberSpelling.exists_cons (.decimal (valid_of_scan? hscan)) with ⟨c, rest, hchars, hc⟩
    rw [hchars] at h
    exact absurd (hc.symm.trans (h c rfl)) (by decide)

namespace Reading

variable {E : Abort → Prop} {text left : List Char}

/-- If the digits are too many, it is excused to give up for that. -/
def ExcusesDigits (E : Abort → Prop) (digits : List Char) : Prop :=
  Numeral.digitLimit < digits.length → E (.numeralTooLong digits.length)

theorem relates_numeral : Relates Parser.numeral fun text value left =>
    ∃ digits, text = digits ++ left ∧ Digits digits ∧ value = Numeral.value digits := by
  constructor
  intro text value after h
  rw [Parser.numeral] at h
  split at h
  · exact absurd h (by simp only [Parser.outcome_fail, reduceCtorEq, not_false_eq_true])
  · next hne =>
      split at h
      · exact absurd h (by simp only [Parser.outcome_abort, reduceCtorEq, not_false_eq_true])
      · rw [Outcome.done.injEq] at h
        refine ⟨text.dropWhile Char.isDigit, ?_, text.takeWhile Char.isDigit,
          List.takeWhile_append_dropWhile.symm, ⟨fun hnil => hne (List.isEmpty_iff.mpr hnil), ?_⟩,
          h.1.symm⟩
        · exact h.2.symm.trans (Rest.skipWhile_ofList Char.isDigit text)
        · exact List.all_eq_true.mp List.all_takeWhile

theorem reads_numeral {digits : List Char} (h : Digits digits) (hlong : ExcusesDigits E digits)
    (hleft : DigitsEnd left) :
    ReadsUnless E Parser.numeral (digits ++ left) (Numeral.value digits) left := by
  have hspan : (Rest.ofList (digits ++ left)).span Char.isDigit = digits :=
    takeWhile_isDigit h.2 hleft
  rw [ReadsUnless, Parser.numeral]
  simp only [hspan, List.isEmpty_eq_false_iff.mpr h.1, Bool.false_eq_true, if_false]
  split
  · next hlimit => exact .inr ⟨_, hlong hlimit, rfl⟩
  · exact .inl (by rw [Rest.drop_ofList, List.drop_left])

theorem relates_integer : Relates Parser.integer fun text value left =>
    ∃ digits middle, text = digits ++ middle ∧ Digits digits ∧ value = Numeral.value digits ∧
      Skips middle left ∧ Significant left := by
  refine ((relates_lexeme relates_numeral).labeled _).mono ?_
  rintro text value left ⟨middle, ⟨digits, htext, hdigits, hvalue⟩, hskips, hleft⟩
  exact ⟨digits, middle, htext, hdigits, hvalue, hskips, hleft⟩

theorem reads_integer {digits middle : List Char} (h : Digits digits)
    (hlong : ExcusesDigits E digits) (hmiddle : DigitsEnd middle) (hskips : Skips middle left)
    (hleft : Significant left) :
    ReadsUnless E Parser.integer (digits ++ middle) (Numeral.value digits) left :=
  (reads_lexeme (reads_numeral h hlong hmiddle) hskips hleft).labeled _

/-- What a signed integer is read from. -/
theorem relates_signedInteger : Relates Parser.signedInteger fun text value left =>
    ∃ sign digits middle, text = sign.toList ++ (digits ++ middle) ∧ IsSign sign ∧ Digits digits ∧
      value = signedValue sign (Numeral.value digits) ∧ Skips middle left ∧ Significant left := by
  constructor
  intro text value after h
  rw [Parser.signedInteger, Parser.signed, Parser.outcome_ifOpens] at h
  split at h
  · next hminus =>
      rcases List.head?_eq_some_iff.mp (opensWith_ofList_iff.mp hminus) with ⟨rest, rfl⟩
      rcases Parser.bind_done h with ⟨_, middle, htake, h⟩
      rcases Parser.bind_done h with ⟨found, last, hint, hpure⟩
      rcases Parser.map_done hint with ⟨n, hn, rfl⟩
      rw [Parser.lift_self, Parser.take, Outcome.done.injEq] at htake
      rw [← htake.2, Rest.drop_ofList] at hn
      rcases relates_integer.sound hn with ⟨left, rfl, digits, between, htext, hdigits, rfl, hskips⟩
      rw [Parser.outcome_pure, Outcome.done.injEq] at hpure
      refine ⟨left, hpure.2.symm, some '-', digits, between, ?_, ?_, hdigits, ?_, hskips⟩
      · exact congrArg ('-' :: ·) htext
      · exact fun c hc => .inr (Option.mem_some_iff.mp hc).symm
      · exact hpure.1.symm
  · rw [Parser.outcome_ifOpens] at h
    split at h
    · next hplus =>
        rcases List.head?_eq_some_iff.mp (opensWith_ofList_iff.mp hplus) with ⟨rest, rfl⟩
        rcases Parser.bind_done h with ⟨_, middle, htake, hint⟩
        rcases Parser.map_done hint with ⟨n, hn, rfl⟩
        rw [Parser.lift_self, Parser.take, Outcome.done.injEq] at htake
        rw [← htake.2, Rest.drop_ofList] at hn
        rcases relates_integer.sound hn with ⟨left, rfl, digits, between, htext, hdigits, rfl, hskips⟩
        -- A plus sign does not show in the value.
        refine ⟨left, rfl, some '+', digits, between, ?_, ?_, hdigits, rfl, hskips⟩
        · exact congrArg ('+' :: ·) htext
        · exact fun c hc => .inl (Option.mem_some_iff.mp hc).symm
    · rcases Parser.map_done h with ⟨n, hn, rfl⟩
      rcases relates_integer.sound hn with ⟨left, rfl, digits, between, htext, hdigits, rfl, hskips⟩
      exact ⟨left, rfl, none, digits, between, htext,
        fun c hc => absurd hc (Option.not_mem_none c), hdigits, rfl, hskips⟩

theorem reads_take_one (c : Char) (left : List Char) :
    ReadsUnless E (Parser.take 1) (c :: left) () left := by
  refine .inl ?_
  rw [Parser.take, Rest.drop_ofList]
  rfl

theorem reads_signedInteger {sign : Option Char} {digits middle : List Char} (hsign : IsSign sign)
    (h : Digits digits) (hlong : ExcusesDigits E digits) (hmiddle : DigitsEnd middle)
    (hskips : Skips middle left) (hleft : Significant left) :
    ReadsUnless E Parser.signedInteger (sign.toList ++ (digits ++ middle))
      (signedValue sign (Numeral.value digits)) left := by
  have hint := (reads_integer h hlong hmiddle hskips hleft).map Int.ofNat
  rcases sign with _ | c
  · exact reads_ifOpens_of_ne (h.head?_ne middle (by decide))
      (reads_ifOpens_of_ne (h.head?_ne middle (by decide)) hint)
  · rcases hsign c rfl with rfl | rfl
    · refine reads_ifOpens_of_ne ?_ (reads_ifOpens rfl ((reads_take_one '+' _).bind hint))
      simp only [Option.toList_some, List.cons_append, List.head?_cons, ne_eq, Option.some.injEq,
        Char.reduceEq, not_false_eq_true]
    · exact reads_ifOpens rfl ((reads_take_one '-' _).bind (hint.bind (.pure _ _)))

/-- What a number is read from, as the spelling and the layout behind it. -/
def NumberRead (text : List Char) (n : Number) (left : List Char) : Prop :=
  ∃ spelling middle, text = spelling ++ middle ∧ NumberSpelling spelling n ∧ Skips middle left ∧
    Significant left

theorem relates_slash : Relates (Parser.character "/") fun text value left =>
    value = "/" ∧ text = '/' :: left :=
  relates_expect fun h => h

/-- A fraction is read from a spelling of one. -/
theorem relates_fraction : Relates Grammar.fraction NumberRead := by
  constructor
  intro text value after h
  rcases Parser.bind_done h with ⟨numerator, _, h1, hbehind⟩
  rcases Parser.bind_done hbehind with ⟨_, _, h2, hbelow⟩
  rcases Parser.bind_done hbelow with ⟨denominator, _, h3, hnumber⟩
  clear h hbehind hbelow
  rcases relates_signedInteger.sound h1 with
    ⟨_, rfl, sign, above, between, rfl, hsign, habove, rfl, hskips, -⟩
  rcases relates_slash.sound h2 with ⟨behind, rfl, -, rfl⟩
  rcases relates_integer.sound h3 with ⟨left, rfl, below, middle, rfl, hbelow, rfl, hlast⟩
  rcases hskips.exists_gap (List.cons_ne_nil _ _) with ⟨gap, hgap, rfl⟩
  split at hnumber
  · exact absurd hnumber (by simp only [Parser.outcome_fail, reduceCtorEq, not_false_eq_true])
  · next hpos =>
      have hbuild : Number.ofFraction (signedValue sign (Numeral.value above)) (Numeral.value below) =
          .ok (.rational (signedValue sign (Numeral.value above)) (Numeral.value below)) := by
        rw [Number.ofFraction, if_pos (Int.natCast_pos.mpr (Nat.pos_of_ne_zero hpos)),
          Int.toNat_natCast]
      rw [hbuild, Parser.build, Parser.outcome_pure, Outcome.done.injEq] at hnumber
      rw [← hnumber.1]
      refine ⟨left, hnumber.2.symm, _, middle, ?_,
        .fraction hsign habove hgap hbelow hpos, hlast⟩
      simp only [List.append_assoc, List.cons_append]

/-- A literal is read from its characters. -/
theorem relates_decimalLiteral : Relates Parser.decimalLiteral fun text literal left =>
    text = literal.chars ++ left ∧ literal.Valid := by
  constructor
  intro text literal after hp
  rw [Parser.decimalLiteral] at hp
  split at hp
  · next found hscan =>
      rw [Outcome.done.injEq] at hp
      rcases DecimalLiteral.isPrefix_chars hscan with ⟨left, hleft⟩
      refine ⟨left, ?_, ?_, hp.1 ▸ DecimalLiteral.valid_of_scan? hscan⟩
      · rw [← hp.2, Rest.drop_ofList, ← Rest.chars_ofList text, ← hleft, List.drop_left]
      · rw [← hp.1]
        exact hleft.symm
  · exact absurd hp (by simp only [Parser.outcome_fail, reduceCtorEq, not_false_eq_true])

theorem relates_decimalNumber : Relates Grammar.decimalNumber NumberRead := by
  constructor
  intro text value after h
  rcases Parser.bind_done h with ⟨literal, _, h1, hnumber⟩
  clear h
  rcases (relates_lexeme relates_decimalLiteral).sound h1 with ⟨left, rfl, middle, ⟨rfl, hvalid⟩, hlast⟩
  split at hnumber
  · rw [Parser.outcome_pure, Outcome.done.injEq] at hnumber
    exact ⟨left, hnumber.2.symm, literal.chars, middle, rfl, hnumber.1 ▸ .decimal hvalid, hlast⟩
  · exact absurd hnumber (by simp only [Parser.outcome_abort, reduceCtorEq, not_false_eq_true])

/-- A number is read from one of its spellings and the layout behind it. -/
theorem relates_number : Relates Grammar.number NumberRead :=
  (relates_fraction.orElse relates_decimalNumber).labeled _

/-- What follows a number in front of the rest of a text. -/
theorem numberEnds_of_skips {middle : List Char} (h : Skips middle left) (hleft : NumberEnds left) :
    NumberEnds middle := by
  intro d hd
  refine ⟨wordEnds_of_skips h (fun c hc => (hleft c hc).1) d hd, ?_⟩
  rcases h.eq_or_head with rfl | ⟨c, hhead, hc⟩
  · exact (hleft d hd).2
  · rw [hhead, Option.mem_some_iff] at hd
    subst hd
    rintro rfl
    exact absurd hc (by decide)

/-- A decimal is not mistaken for the start of a fraction. -/
theorem misses_fraction {literal : DecimalLiteral} (h : literal.Valid)
    (hlong : ExcusesDigits E literal.whole) {middle : List Char} (hskips : Skips middle left)
    (hleft : Significant left) (hends : NumberEnds left) (hslash : left.head? ≠ some '/') :
    MissesUnless E Grammar.fraction (literal.chars ++ middle) := by
  have hmiddle := numberEnds_of_skips hskips hends
  have hdigits := DecimalLiteral.digitsEnd_tail h hmiddle
  have hchars : literal.chars ++ middle = literal.sign.toList ++ (literal.whole ++
      (DecimalLiteral.fractionChars literal.fraction ++
        ((literal.exponent.map ExponentLiteral.chars).getD [] ++ middle))) := by
    simp only [DecimalLiteral.chars, List.append_assoc]
  -- Behind the digits stands a point, a mark, or what follows the layout.
  have htail : ∃ tail, Skips (DecimalLiteral.fractionChars literal.fraction ++
      ((literal.exponent.map ExponentLiteral.chars).getD [] ++ middle)) tail ∧
      Significant tail ∧ tail.head? ≠ some '/' := by
    rcases hfraction : literal.fraction with _ | digits
    · rcases hexponent : literal.exponent with _ | e
      · exact ⟨left, hskips, hleft, hslash⟩
      · refine ⟨_, .nil _, ?_, ?_⟩
        · rcases (h.exponent e hexponent).1 with hmark | hmark
          · rw [Option.map_some, Option.getD_some, ExponentLiteral.chars, hmark]
            exact significant_cons (by decide) (by decide) (by decide)
          · rw [Option.map_some, Option.getD_some, ExponentLiteral.chars, hmark]
            exact significant_cons (by decide) (by decide) (by decide)
        · rw [Option.map_some, Option.getD_some, ExponentLiteral.chars]
          intro hhead
          rcases (h.exponent e hexponent).1 with hmark | hmark
          · exact absurd (hmark.symm.trans (Option.some.inj hhead)) (by decide)
          · exact absurd (hmark.symm.trans (Option.some.inj hhead)) (by decide)
    · refine ⟨_, .nil _, significant_cons (by decide) (by decide) (by decide), ?_⟩
      exact fun hhead => absurd (Option.some.inj hhead) (by decide)
  rcases htail with ⟨tail, hskipTail, hsignificant, hnot⟩
  rw [hchars]
  refine .then (reads_signedInteger h.sign h.whole hlong hdigits hskipTail hsignificant) (.bind ?_)
  refine misses_expect fun hprefix => hnot ?_
  rcases hprefix with ⟨rest, rfl⟩
  rfl

/-- A decimal is taken as a whole, where no number goes on behind it. -/
theorem reads_decimalLiteral {literal : DecimalLiteral} (h : literal.Valid) {middle : List Char}
    (hskips : Skips middle left) (hleft : Significant left) (hends : NumberEnds left) :
    ReadsUnless E (Parser.lexeme Parser.decimalLiteral) (literal.chars ++ middle) literal left := by
  refine reads_lexeme (.inl ?_) hskips hleft
  rw [Parser.decimalLiteral, Rest.chars_ofList,
    DecimalLiteral.scan?_chars h (numberEnds_of_skips hskips hends)]
  simp only [Rest.drop_ofList, List.drop_left]

/-- A number is read from a decimal, where no number goes on behind it. -/
theorem reads_number_of_decimal {literal : DecimalLiteral} (h : literal.Valid)
    (hlong : ExcusesDigits E literal.whole)
    (hrange : literal.value.isRepresentable = false → E .decimalOutOfRange) {middle : List Char}
    (hskips : Skips middle left) (hleft : Significant left) (hends : NumberEnds left)
    (hslash : left.head? ≠ some '/') :
    ReadsUnless E Grammar.number (literal.chars ++ middle) (.ofDecimal literal.value) left := by
  refine .labeled _ (.orElse_of_misses (misses_fraction h hlong hskips hleft hends hslash) ?_)
  refine (reads_decimalLiteral h hskips hleft hends).bind ?_
  split
  · exact .pure _ _
  · next hnot => exact .abort (hrange (Bool.not_eq_true _ ▸ hnot))

/-- No number goes on at a slash. -/
theorem numberEnds_slash (text : List Char) : NumberEnds ('/' :: text) := by
  intro c hc
  rw [List.head?_cons, Option.mem_some_iff] at hc
  exact hc ▸ ⟨by decide, by decide⟩

/-- In front of a slash and the layout before it a digit string ends. -/
theorem Gap.digitsEnd {gap : List Char} (h : Gap gap) (text : List Char) :
    DigitsEnd (gap ++ '/' :: text) :=
  (numberEnds_of_skips (h.skips ('/' :: text)) (numberEnds_slash text)).digitsEnd

/-- The integer in front of a slash is read with the layout behind it. -/
theorem reads_numerator {sign : Option Char} {above gap below : List Char} (hsign : IsSign sign)
    (habove : Digits above) (hlong : ExcusesDigits E above) (hgap : Gap gap)
    (hbelow : Digits below) (middle : List Char) :
    ReadsUnless E Parser.signedInteger
      (sign.toList ++ (above ++ (gap ++ '/' :: (below ++ middle))))
      (signedValue sign (Numeral.value above)) ('/' :: (below ++ middle)) := by
  -- A digit follows the slash, and no star, so it does not open a comment.
  have hsignificant : Significant ('/' :: (below ++ middle)) := by
    refine ⟨fun c hc => ?_, fun hprefix => ?_⟩
    · rw [List.head?_cons, Option.mem_some_iff] at hc
      exact hc ▸ ⟨by decide, by decide⟩
    · rcases (List.cons_prefix_cons.mp hprefix).2 with ⟨rest, hrest⟩
      have hstar : '*'.isDigit = false := by decide
      exact hbelow.head?_ne middle hstar (hrest ▸ rfl)
  exact reads_signedInteger hsign habove hlong (hgap.digitsEnd _) (hgap.skips _) hsignificant

/-- A number is read from a fraction, where no number goes on behind it. -/
theorem reads_number_of_fraction {sign : Option Char} {above gap below middle : List Char}
    (hsign : IsSign sign) (habove : Digits above) (hlongAbove : ExcusesDigits E above)
    (hgap : Gap gap) (hbelow : Digits below) (hlongBelow : ExcusesDigits E below)
    (hpos : Numeral.value below ≠ 0) (hskips : Skips middle left) (hleft : Significant left)
    (hends : NumberEnds left) :
    ReadsUnless E Grammar.number (sign.toList ++ (above ++ (gap ++ '/' :: below)) ++ middle)
      (.rational (signedValue sign (Numeral.value above)) (Numeral.value below)) left := by
  refine .labeled _ (.orElse ?_)
  simp only [List.append_assoc, List.cons_append]
  refine (reads_numerator hsign habove hlongAbove hgap hbelow middle).bind ?_
  refine (reads_expect "character" "/" (below ++ middle)).bind ?_
  refine (reads_integer hbelow hlongBelow (numberEnds_of_skips hskips hends).digitsEnd hskips
    hleft).bind ?_
  rw [if_neg hpos, Number.ofFraction,
    if_pos (Int.natCast_pos.mpr (Nat.pos_of_ne_zero hpos)), Int.toNat_natCast]
  exact .pure _ _

/-- A number is read from its spellings, where no number goes on behind it. -/
theorem reads_number {spelling middle : List Char} {n : Number} (h : NumberSpelling spelling n)
    (hskips : Skips middle left) (hleft : Significant left) (hends : NumberEnds left)
    (hslash : left.head? ≠ some '/') : Reads Grammar.number (spelling ++ middle) n left := by
  cases h with
  | decimal hvalid =>
      exact reads_number_of_decimal hvalid (fun _ => trivial) (fun _ => trivial) hskips hleft hends
        hslash
  | fraction hsign habove hgap hbelow hpos =>
      exact reads_number_of_fraction hsign habove (fun _ => trivial) hgap hbelow
        (fun _ => trivial) hpos hskips hleft hends

/-- Without a digit there is no numeral. -/
theorem misses_numeral (h : DigitsEnd text) : MissesUnless E Parser.numeral text := by
  have hspan : (Rest.ofList text).span Char.isDigit = [] := by
    rcases text with _ | ⟨c, text⟩
    · rfl
    · exact List.takeWhile_cons_of_neg (Bool.eq_false_iff.mp (h c rfl))
  rw [MissesUnless, Parser.numeral, hspan]
  exact .inl ⟨_, rfl⟩

/-- An integer opens with a digit or a sign. -/
theorem misses_signedInteger (h : ∀ c ∈ text.head?, (c.isDigit || c == '+' || c == '-') = false) :
    MissesUnless E Parser.signedInteger text := by
  have hne : ∀ d, (d.isDigit || d == '+' || d == '-') = true → text.head? ≠ some d := by
    intro d hd hhead
    exact absurd (hd.symm.trans (h d hhead)) (by decide)
  have hdigits : DigitsEnd text := by
    intro c hc
    have hboth := h c hc
    rw [Bool.or_eq_false_iff, Bool.or_eq_false_iff] at hboth
    exact hboth.1.1
  exact misses_ifOpens_of_ne (hne '-' (by decide)) (misses_ifOpens_of_ne (hne '+' (by decide))
    (.map (.labeled _ (misses_lexeme (misses_numeral hdigits)))))

/-- A number opens with a digit or a sign. -/
theorem misses_number (h : ∀ c ∈ text.head?, (c.isDigit || c == '+' || c == '-') = false) :
    MissesUnless E Grammar.number text := by
  refine .labeled _ (.orElse (.bind (misses_signedInteger h)) (.bind (misses_lexeme ?_)))
  rw [MissesUnless, Parser.decimalLiteral, Rest.chars_ofList, DecimalLiteral.scan?_eq_none h]
  exact .inl ⟨_, rfl⟩

end Reading

end Tptp
