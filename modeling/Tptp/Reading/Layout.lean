import Tptp.Reading.Combinator
import Tptp.Text.CharClass

/-!
# Layout

What stands between the tokens and means nothing.

Layout is any mixture of blanks, line comments and block comments. A line
comment goes from a percent sign to the end of its line, a block comment from
`/*` to the first `*/` behind it. What opens one of them means nothing inside
another: a percent sign in a block comment is part of the comment.

Every token takes the layout behind it, so that a production starts and ends
where a token starts.

## Main definitions

* `blockLength?`: The length of a block comment, from behind its opening.
* `skipLayout`: Skips layout.
* `skipBlanks`: Skips blanks and leaves comments alone.
* `restOfLine`: Takes the rest of a line.
* `endOfInput`: Matches the end of the text.

## Theorems

* `Rest.le_size_of_startsWith`: A text that starts with some characters has as
  many, so every comment leaves less to be read.
-/

namespace Tptp

namespace Reading

/-- How many characters a text has up to the first `*/` and including it. -/
def blockLength? : List Char → Option Nat
  | '*' :: '/' :: _ => some 2
  | _ :: rest => (blockLength? rest).map (· + 1)
  | [] => none

/-- The characters of the present line, without the newline that ends it. -/
def Rest.line (rest : Rest) : List Char :=
  rest.span (· ≠ '\n')

/-- The start of the next line, or the end of the text if it has no more lines. -/
def Rest.nextLine (rest : Rest) : Rest :=
  { rest.drop (rest.line.length + 1) with beyond := 0, beyond_eq := .inr rfl }

/-- A text that starts with a character has one. -/
theorem Rest.size_pos_of_opensWith {rest : Rest} {c : Char} (h : rest.opensWith c = true) :
    0 < rest.size := by
  simp only [opensWith, decide_eq_true_eq] at h
  rw [rest.size_eq, List.length_pos_iff]
  intro hnil
  simp only [hnil, List.head?_nil, reduceCtorEq] at h

/-- A text that starts with some characters has as many. -/
theorem Rest.le_size_of_startsWith {rest : Rest} {text : List Char}
    (h : rest.startsWith text = true) : text.length ≤ rest.size := by
  simp only [startsWith, Bool.and_eq_true] at h
  rw [rest.size_eq]
  exact (List.isPrefixOf_iff_prefix.mp h.2).length_le

namespace Parser

/-- Skips blanks and comments. A block comment that is not closed is where this
    fails. -/
def skipLayout (start : Rest) : Result Unit :=
  let rest := start.skipWhile Text.isBlank
  if _percent : rest.opensWith '%' = true then skipLayout rest.nextLine
  else if _opening : rest.startsWith ['/', '*'] = true then
    -- The closing `*/` must not share a character with the opening.
    match blockLength? (rest.chars.drop 2) with
    | some length => skipLayout (rest.drop (2 + length))
    | none => fail "block comment" rest
  else ⟨.done () rest, none⟩
termination_by start.size
decreasing_by
  · have hle := start.size_skipWhile_le Text.isBlank
    have hpos : 0 < (start.skipWhile Text.isBlank).size := Rest.size_pos_of_opensWith _percent
    simp only [Rest.nextLine, Rest.size_drop]
    omega
  · have hle := start.size_skipWhile_le Text.isBlank
    have hpos : 2 ≤ (start.skipWhile Text.isBlank).size := Rest.le_size_of_startsWith _opening
    simp only [Rest.size_drop]
    omega

/-- Skips blanks and leaves comments alone. -/
def skipBlanks : Parser Unit := fun rest =>
  ⟨.done () (rest.skipWhile Text.isBlank), none⟩

/-- Takes the rest of the line and the newline behind it; the value is without
    the newline. -/
def restOfLine : Parser (List Char) := fun rest =>
  ⟨.done rest.line rest.nextLine, none⟩

/-- Matches the end of the text. -/
def endOfInput : Parser Unit := fun rest =>
  if rest.atEnd then ⟨.done () rest, none⟩ else fail "end of input" rest

variable {σ α : Type} [Place σ]

/-- A token and the layout behind it. -/
def lexeme (p : ParserOn σ α) : ParserOn σ α := do
  let value ← p
  lift skipLayout
  return value

end Parser

end Reading

end Tptp
