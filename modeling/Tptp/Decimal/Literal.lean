import Tptp.Decimal

/-!
# Decimal Literals

Decimal numbers as they are written.

A literal has an optional sign, digits, and optionally a fraction and an
exponent. It is taken apart into these pieces and nothing is thrown away, so the
text of a literal can be had back from them.

A point that no digit follows is not part of a literal, and neither is a letter
`e` without an exponent behind it.

## Main definitions

* `DecimalLiteral`: The pieces of a literal.
* `DecimalLiteral.scan?`: The literal at the start of a text.
* `DecimalLiteral.chars`: A literal put together again.
* `DecimalLiteral.value`: The decimal that a literal denotes.

## Theorems

* `DecimalLiteral.isPrefix_chars`: A literal is the start of the text it was found
  in.
-/

namespace Tptp

/-- The exponent of a decimal literal. -/
structure ExponentLiteral where
  /-- The letter `e` of either case. -/
  mark : Char
  /-- The sign, if there is one. -/
  sign : Option Char
  /-- The digits. -/
  digits : List Char

/-- A decimal number as it is written. -/
structure DecimalLiteral where
  /-- The sign, if there is one. -/
  sign : Option Char
  /-- The digits in front of the point. -/
  whole : List Char
  /-- The digits behind the point, if there is one. -/
  fraction : Option (List Char)
  /-- The exponent, if there is one. -/
  exponent : Option ExponentLiteral

namespace ExponentLiteral

/-- The characters of an exponent. -/
def chars (literal : ExponentLiteral) : List Char :=
  literal.mark :: (literal.sign.toList ++ literal.digits)

/-- The number an exponent denotes. -/
def value (literal : ExponentLiteral) : Int :=
  if literal.sign = some '-' then -(Numeral.value literal.digits : Int)
  else Numeral.value literal.digits

end ExponentLiteral

namespace DecimalLiteral

/-- The characters of a fraction, the point included. -/
def fractionChars : Option (List Char) → List Char
  | none => []
  | some digits => '.' :: digits

/-- The characters of a literal. -/
def chars (literal : DecimalLiteral) : List Char :=
  literal.sign.toList ++ literal.whole ++ fractionChars literal.fraction ++
    (literal.exponent.map ExponentLiteral.chars).getD []

/-- The decimal that a literal denotes: the digits on both sides of the point as
    one number, scaled by the exponent and the number of digits behind it. -/
def value (literal : DecimalLiteral) : Decimal :=
  let fraction := literal.fraction.getD []
  let exponent := (literal.exponent.map ExponentLiteral.value).getD 0
  ⟨literal.sign = some '-', Numeral.value (literal.whole ++ fraction),
    exponent - fraction.length⟩

/-- The sign with which a text starts. -/
def signOf (text : List Char) : Option Char :=
  text.head?.filter fun c => c = '+' || c = '-'

/-- The fraction with which a text starts. -/
def fractionOf (text : List Char) : Option (List Char) :=
  match text with
  | '.' :: rest =>
    let digits := rest.takeWhile Char.isDigit
    -- A bare point is left for the grammar, where it ends a unit.
    if digits.isEmpty then none else some digits
  | _ => none

/-- The exponent with which a text starts. -/
def exponentOf (text : List Char) : Option ExponentLiteral :=
  match text with
  | mark :: rest =>
    if mark = 'e' || mark = 'E' then
      let sign := signOf rest
      let digits := (rest.drop sign.toList.length).takeWhile Char.isDigit
      -- Without digits neither the mark nor the sign belongs to the literal.
      if digits.isEmpty then none else some ⟨mark, sign, digits⟩
    else none
  | [] => none

/-- The literal with which a text starts, as long as it goes. -/
def scan? (text : List Char) : Option DecimalLiteral :=
  let sign := signOf text
  let text := text.drop sign.toList.length
  let whole := text.takeWhile Char.isDigit
  let text := text.drop whole.length
  let fraction := fractionOf text
  let text := text.drop (fractionChars fraction).length
  if whole.isEmpty then none else some ⟨sign, whole, fraction, exponentOf text⟩

/-- A sign is the start of the text it was found in. -/
theorem isPrefix_signOf (text : List Char) : (signOf text).toList <+: text := by
  cases text with
  | nil => exact List.nil_prefix
  | cons c rest =>
      simp only [signOf, List.head?_cons, Option.filter]
      split
      · exact ⟨rest, rfl⟩
      · exact List.nil_prefix

/-- A fraction is the start of the text it was found in. -/
theorem isPrefix_fractionChars (text : List Char) : fractionChars (fractionOf text) <+: text := by
  unfold fractionOf
  split
  · dsimp only
    split
    · exact List.nil_prefix
    · exact List.cons_prefix_cons.mpr ⟨rfl, List.takeWhile_prefix _⟩
  · exact List.nil_prefix

/-- What starts a text and what starts the remainder make one start. -/
private theorem isPrefix_append {front back text : List Char} (hf : front <+: text)
    (hb : back <+: text.drop front.length) : front ++ back <+: text := by
  obtain ⟨rest, rfl⟩ := hf
  rw [List.drop_left] at hb
  exact (List.prefix_append_right_inj front).mpr hb

/-- An exponent is the start of the text it was found in. -/
theorem isPrefix_exponentOf (text : List Char) :
    ((exponentOf text).map ExponentLiteral.chars).getD [] <+: text := by
  cases text with
  | nil => exact List.nil_prefix
  | cons mark rest =>
      simp only [exponentOf]
      split
      · split
        · exact List.nil_prefix
        · exact List.cons_prefix_cons.mpr
            ⟨rfl, isPrefix_append (isPrefix_signOf rest) ( List.takeWhile_prefix _)⟩
      · exact List.nil_prefix

/-- A literal is the start of the text it was found in. -/
theorem isPrefix_chars {text : List Char} {literal : DecimalLiteral} (h : scan? text = some literal) :
    literal.chars <+: text := by
  simp only [scan?] at h
  split at h
  · exact absurd h (by simp only [reduceCtorEq, not_false_eq_true])
  · simp only [Option.some.injEq] at h
    subst h
    simp only [chars, List.append_assoc]
    refine isPrefix_append (isPrefix_signOf text) (isPrefix_append ( List.takeWhile_prefix _) ?_)
    exact isPrefix_append (isPrefix_fractionChars _) (isPrefix_exponentOf _)

end DecimalLiteral

end Tptp
