import Tptp.Text.Unassigned

/-!
# Displayed Text

Text as a message shows it.

A message quotes a text it complains about, and there every character should be
seen. A character with a shape of its own is shown as it is, a backslash in front
of the quote and of another backslash apart. What has no shape of its own, or is
no character at all, is shown by its code point, in the shortest of three widths.

The quotes are single ones, unless the text holds a single quote and no double
one; so a quote is escaped only in a text that holds both.

## Main definitions

* `isShapeless`: Characters that are shown by their code points.
* `displayedChar`: A character as a message shows it.
* `displayed`: A text as a message shows it.

## Theorems

* `displayedChar_self`: A character with a shape, neither the quote nor a
  backslash, stands for itself.
-/

namespace Tptp

namespace Text

/-- Characters without a shape of their own beyond ASCII: controls, formats,
    separators and private use. -/
def shapelessRanges : List CodeRange := [
    ⟨0x80, 0xA0, 1⟩, ⟨0xAD, 0xAD, 1⟩, ⟨0x600, 0x605, 1⟩, ⟨0x61C, 0x61C, 1⟩,
    ⟨0x6DD, 0x6DD, 1⟩, ⟨0x70F, 0x70F, 1⟩, ⟨0x890, 0x891, 1⟩, ⟨0x8E2, 0x8E2, 1⟩,
    ⟨0x1680, 0x1680, 1⟩, ⟨0x180E, 0x180E, 1⟩, ⟨0x2000, 0x200F, 1⟩, ⟨0x2028, 0x202F, 1⟩,
    ⟨0x205F, 0x2064, 1⟩, ⟨0x2066, 0x206F, 1⟩, ⟨0x3000, 0x3000, 1⟩, ⟨0xE000, 0xF8FF, 1⟩,
    ⟨0xFEFF, 0xFEFF, 1⟩, ⟨0xFFF9, 0xFFFB, 1⟩, ⟨0x110BD, 0x110BD, 1⟩, ⟨0x110CD, 0x110CD, 1⟩,
    ⟨0x13430, 0x13438, 1⟩, ⟨0x1BCA0, 0x1BCA3, 1⟩, ⟨0x1D173, 0x1D17A, 1⟩, ⟨0xE0001, 0xE0001, 1⟩,
    ⟨0xE0020, 0xE007F, 1⟩, ⟨0xF0000, 0xFFFFD, 1⟩, ⟨0x100000, 0x10FFFD, 1⟩]

/-- A character has no shape of its own: a message shows its code point. -/
def isShapeless (c : Char) : Bool :=
  let n := c.toNat
  n < 0x20 || n == 0x7F || shapelessRanges.any (·.contains n) || isUnassigned c

/-- The hexadecimal digits of a number, padded with zeros to a width. -/
def paddedHex (width n : Nat) : List Char :=
  let digits := Nat.toDigits 16 n
  List.replicate (width - digits.length) '0' ++ digits

/-- A character as a message shows it between a given pair of quotes. -/
def displayedChar (quote : Char) (c : Char) : List Char :=
  if c = quote || c = '\\' then ['\\', c]
  else if c = '\n' then ['\\', 'n']
  else if c = '\r' then ['\\', 'r']
  else if c = '\t' then ['\\', 't']
  else if isShapeless c then
    let n := c.toNat
    if n < 0x100 then '\\' :: 'x' :: paddedHex 2 n
    else if n < 0x10000 then '\\' :: 'u' :: paddedHex 4 n
    else '\\' :: 'U' :: paddedHex 8 n
  else [c]

/-- A character with a shape, neither the quote nor a backslash, stands for
    itself. -/
theorem displayedChar_self {quote c : Char} (hq : c ≠ quote) (hb : c ≠ '\\')
    (hs : isShapeless c = false) : displayedChar quote c = [c] := by
  -- The characters with an escape of their own are controls, so shapeless.
  have hn : c ≠ '\n' := fun h => by rw [h] at hs; exact absurd hs (by decide)
  have hr : c ≠ '\r' := fun h => by rw [h] at hs; exact absurd hs (by decide)
  have ht : c ≠ '\t' := fun h => by rw [h] at hs; exact absurd hs (by decide)
  simp only [displayedChar, hq, hb, hn, hr, ht, hs, decide_false, Bool.or_self,
    Bool.false_eq_true, if_false]

/-- A text as messages show it: between single quotes, or between double
    quotes if it holds a single quote and no double one. -/
def displayed (text : String) : String :=
  let chars := text.toList
  -- Double quotes are the exception, for a text that would need escapes else.
  let quote := if chars.contains '\x27' && !chars.contains '"' then '"' else '\x27'
  String.ofList (quote :: (chars.flatMap (displayedChar quote) ++ [quote]))

end Text

end Tptp
