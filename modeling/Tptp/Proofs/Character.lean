import Tptp.Text.CharClass

/-!
# Classes Within Classes

Which classes of characters lie within others.

The grammar tells characters apart by class: a word goes on with word characters,
a term is told from the case of its first letter. That one class lies within another
is a fact about ranges of numbers once both are written as such. Between a class and
a single character no range is needed, since membership of a given character can be
computed. The blanks are few enough to be listed, and what is to be shown of them can be
computed for each.

## Main definitions

* `opensLayout`: The characters that layout may start with.

## Theorems

* `isPrintable_iff`: The characters of quoted text.
* `isPrintable_of_isWordChar`: Words are printable.
* `isWordChar_of_isLower`, `isWordChar_of_isUpper`, `isWordChar_of_isDigit`: Letters and
  digits make up words.
* `not_isWordChar_of_opensLayout`: Layout starts no word.
* `not_isUpperCase_of_opensLayout`: Nor anything that is told by a letter or a digit.
-/

namespace Tptp

namespace Text

theorem isPrintable_iff (c : Char) : isPrintable c = true ↔ 32 ≤ c.toNat ∧ c.toNat ≤ 126 := by
  simp only [isPrintable, Bool.and_eq_true, decide_eq_true_eq, Char.le_def, UInt32.le_iff_toNat_le]
  exact Iff.rfl

/-- Word characters are printable. -/
theorem isPrintable_of_isWordChar {c : Char} (h : isWordChar c = true) :
    isPrintable c = true := by
  rw [isWordChar_iff] at h
  rw [isPrintable_iff]
  omega

/-- Lower case letters are word characters. -/
theorem isWordChar_of_isLower {c : Char} (h : c.isLower = true) : isWordChar c = true := by
  rw [isLower_iff] at h
  rw [isWordChar_iff]
  omega

/-- Upper case letters are word characters. -/
theorem isWordChar_of_isUpper {c : Char} (h : c.isUpper = true) : isWordChar c = true := by
  rw [isUpper_iff] at h
  rw [isWordChar_iff]
  omega

/-- Digits are word characters. -/
theorem isWordChar_of_isDigit {c : Char} (h : c.isDigit = true) : isWordChar c = true := by
  rw [isDigit_iff] at h
  rw [isWordChar_iff]
  omega

/-- A character that layout may start with: a blank, or the first one of a comment. -/
def opensLayout (c : Char) : Bool :=
  isBlank c || c == '%' || c == '/'

theorem opensLayout_of_isBlank {c : Char} (h : isBlank c = true) : opensLayout c = true := by
  rw [opensLayout, h, Bool.true_or, Bool.true_or]

/-- What opens layout is a blank or one of two characters. -/
theorem opensLayout_cases {c : Char} (h : opensLayout c = true) :
    isBlank c = true ∨ c = '%' ∨ c = '/' := by
  rw [opensLayout, Bool.or_eq_true, Bool.or_eq_true, beq_iff_eq, beq_iff_eq, or_assoc] at h
  exact h

/-- Layout starts no word. -/
theorem not_isWordChar_of_opensLayout {c : Char} (h : opensLayout c = true) :
    isWordChar c = false := by
  rcases opensLayout_cases h with h | rfl | rfl
  · rw [← Bool.not_eq_true]
    intro hword
    rw [not_isBlank_of_isWordChar c hword] at h
    exact Bool.false_ne_true h
  · decide
  · decide

/-- The code points of the blanks. -/
def blankCodes : List Nat :=
  [0x09, 0x0A, 0x0B, 0x0C, 0x0D, 0x1C, 0x1D, 0x1E, 0x1F, 0x20, 0x85, 0xA0, 0x1680, 0x2000,
    0x2001, 0x2002, 0x2003, 0x2004, 0x2005, 0x2006, 0x2007, 0x2008, 0x2009, 0x200A, 0x2028,
    0x2029, 0x202F, 0x205F, 0x3000]

theorem toNat_mem_blankCodes {c : Char} (h : isBlank c = true) : c.toNat ∈ blankCodes := by
  simp only [isBlank, Bool.or_eq_true, Bool.and_eq_true, decide_eq_true_eq, beq_iff_eq] at h
  simp only [blankCodes, List.mem_cons, List.not_mem_nil, or_false]
  omega

/-- What holds of the listed code points holds of every blank. -/
theorem of_isBlank {p : Char → Bool} (hall : ∀ n ∈ blankCodes, p (Char.ofNat n) = true) {c : Char}
    (h : isBlank c = true) : p c = true := by
  rw [← Char.ofNat_toNat c]
  exact hall _ (toNat_mem_blankCodes h)

/-- Layout starts nothing that an upper case letter or a digit starts. -/
theorem not_isUpperCase_of_opensLayout {c : Char} (h : opensLayout c = true) :
    isUpperCase c = false ∧ isDigitLike c = false := by
  have hblank : isBlank c = true → (!isUpperCase c && !isDigitLike c) = true :=
    of_isBlank (p := fun c => !isUpperCase c && !isDigitLike c) (by decide +kernel)
  rcases opensLayout_cases h with h | rfl | rfl
  · have hnot := hblank h
    rw [Bool.and_eq_true, Bool.not_eq_true', Bool.not_eq_true'] at hnot
    exact hnot
  · decide
  · decide

end Text

end Tptp
