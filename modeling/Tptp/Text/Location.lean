/-!
# Lines and Columns

Where a position in a text is, as a person would look it up.

Positions count characters from the start of the text. A line ends with a
newline character and with nothing else, and both lines and columns are
counted from one, so the newline itself is the last column of its line and
the position after it is the first column of the next.

## Main definitions

* `Location`: A line and a column.
* `lineStart`: The position at which the line of a position starts.
* `Location.ofPosition`: The location of a position in a text.
* `contextAt`: The text shown beside a location.

## Theorems

* `lineStart_le`: A line starts no later than the positions in it.
* `lineStart_add_column`: The column counts from the start of the line.
-/

namespace Tptp

/-- A place in a text, counted from line one and column one. -/
structure Location where
  /-- One more than the number of newlines before the place. -/
  line : Nat
  /-- One more than the number of characters between the start of the line and
      the place. -/
  column : Nat
deriving DecidableEq

namespace Location

/-- The position at which the line of `position` starts: just after the last
    newline before it, or at the start of the text. -/
def lineStart (text : List Char) (position : Nat) : Nat :=
  let before := text.take position
  before.length - (before.reverse.takeWhile (· ≠ '\n')).length

/-- The location of a position in a text. -/
def ofPosition (text : List Char) (position : Nat) : Location :=
  ⟨(text.take position).count '\n' + 1, position - lineStart text position + 1⟩

/-- A line starts no later than the positions in it. -/
theorem lineStart_le (text : List Char) (position : Nat) :
    lineStart text position ≤ position := by
  simp only [lineStart, List.length_take]
  omega

/-- The column counts from the start of the line. -/
theorem lineStart_add_column (text : List Char) (position : Nat) :
    lineStart text position + (ofPosition text position).column = position + 1 := by
  have := lineStart_le text position
  simp only [ofPosition]
  omega

end Location

/-- How many characters of the text a message shows. -/
def contextLength : Nat := 20

/-- The text from a position on, cut after `contextLength` characters; what was
    cut off leaves an ellipsis. -/
def contextAt (text : List Char) (position : Nat) : List Char :=
  (text.drop position).take contextLength ++
    if position + contextLength < text.length then ['.', '.', '.'] else []

end Tptp
