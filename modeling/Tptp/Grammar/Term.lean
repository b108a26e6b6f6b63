import Tptp.Grammar.Name
import Tptp.Term

/-!
# Grammar of Terms, Literals and Clauses

How terms, literals and clauses are written.

The first character of a term says what it is. A literal is an equation if it can
be read as one, and the application of a predicate otherwise: both may start with
the same application, and only the sign behind it tells them apart. Redundant
parentheses are accepted around terms, around negated literals and around the
parts of a clause.

## Main definitions

* `Grammar.number`: Numbers.
* `Grammar.term`: Terms.
* `Grammar.termArgument`: Terms in redundant parentheses.
* `Grammar.literal`, `Grammar.signedLiteral`: Literals.
* `Grammar.subclause`, `Grammar.clause`: Clauses.

## Theorems

* `Grammar.termArgument_eq`: The argument production only adds parentheses.
-/

namespace Tptp

namespace Grammar

open Reading Parser

/-- A fraction of two integers. The denominator must not be zero. -/
def fraction : Parser Number := do
  let numerator ← signedInteger
  let _ ← character "/"
  let denominator ← integer
  if denominator = 0 then fail "positive denominator"
  else build (Number.ofFraction numerator denominator)

/-- A decimal number, which is an integer if its last digit stands for ones. -/
def decimalNumber : Parser Number := do
  let literal ← lexeme decimalLiteral
  if literal.value.isRepresentable then return .ofDecimal literal.value
  else abort .decimalOutOfRange

/-- A number. -/
def number : Parser Number :=
  labeled "number" (fraction <|> decimalNumber)

/-- The application of a function symbol. -/
def functionTerm (argument : Parser Term) : Parser Term := do
  let name ← function
  let terms ← arguments argument
  return .function name terms

/-- A term whose arguments are read by a given parser. Its first character says
    what it is. -/
def termRule (argument : Parser Term) : Parser Term :=
  labeled "term" fun rest =>
    match rest.chars with
    | c :: _ =>
      if Text.isUpperCase c then (Term.var <$> var) rest
      else if c = '"' then (Term.distinct <$> distinctObject) rest
      else if Text.isDigitLike c || c = '+' || c = '-' then (Term.number <$> number) rest
      else functionTerm argument rest
    -- At the end of the text an application is what one would expect.
    | [] => functionTerm argument rest

mutual

/-- A term, nested as deep as the allowance. -/
def term : Nat → Rest → Result Term
  | 0, rest => abort .tooDeep rest
  | allowance + 1, rest => termRule (termArgument allowance) rest

/-- A term in redundant parentheses. -/
def termArgument : Nat → Rest → Result Term
  | 0, rest => abort .tooDeep rest
  | allowance + 1, rest => orParens (term allowance) (termArgument allowance) rest

end

/-- The argument production only adds parentheses. -/
theorem termArgument_eq : termArgument = optionalParens term := by
  funext allowance
  induction allowance with
  | zero => rfl
  | succ allowance ih =>
      funext rest
      change orParens (term allowance) (termArgument allowance) rest = _
      rw [ih]
      rfl

/-- The sign between the sides of an equation. -/
def equalitySign : Parser Sign :=
  labeled "eq" (member Sign)

/-- An equation or a disequation. -/
def equality (allowance : Nat) : Parser Literal := do
  let left ← termArgument allowance
  let sign ← equalitySign
  let right ← termArgument allowance
  return .equality left sign right

/-- The application of a predicate symbol. -/
def predicateLiteral (allowance : Nat) : Parser Literal := do
  let name ← predicate
  let terms ← arguments (termArgument allowance)
  return .predicate name terms

/-- A literal: an equation if possible, else the application of a predicate. -/
def literal (allowance : Nat) : Parser Literal :=
  equality allowance <|> labeled "literal" (predicateLiteral allowance)

/-- A literal with an optional negation in front. -/
def signedLiteral (allowance : Nat) : Parser SignedLiteral :=
  ifOpens '~'
    (do
      let _ ← operator "~"
      let literal ← optionalParens literal allowance
      return ⟨.negative, literal⟩)
    (do
      let literal ← literal allowance
      return ⟨.positive, literal⟩)

/-- A clause of one literal. -/
def unitClause (allowance : Nat) : Parser Clause :=
  Clause.unit <$> signedLiteral allowance

/-- Parts of a clause between vertical bars. -/
def disjunction (part : Parser Clause) : Parser Clause := do
  let first ← part
  let others ← repeatWhile (·.opensWith '|') do
    let _ ← operator "|"
    part
  return first.appendAll others

/-- A part of a clause: a literal, or a clause between parentheses. -/
def subclause : Nat → Rest → Result Clause
  | 0, rest => abort .tooDeep rest
  | allowance + 1, rest =>
    ifOpens '(' (unitClause allowance <|> parens (disjunction (subclause allowance)))
      (labeled "subclause" (unitClause allowance)) rest

/-- A clause. -/
def clause (allowance : Nat) : Parser Clause :=
  disjunction (subclause allowance)

end Grammar

end Tptp
