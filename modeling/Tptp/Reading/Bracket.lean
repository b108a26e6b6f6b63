import Tptp.Reading.Token

/-!
# Brackets and Lists

Parenthesised items, bracketed lists, and what may be left out.

Redundant parentheses are accepted in many places. `optionalParens` tries its
parser first, since the item itself may start with a parenthesis, and takes a pair
of parentheses away only if that failed. Every pair spends one unit of the
allowance for nesting, and what is inside gets by with the remainder.

## Main definitions

* `Parser.parens`, `Parser.brackets`: An item between parentheses or brackets.
* `Parser.orParens`: An item that may also stand between parentheses.
* `Parser.optionalParens`: An item in any number of parentheses.
* `Parser.bracketList`, `Parser.bracketList1`: Lists between brackets.
* `Parser.comma`, `Parser.maybeComma`: An item behind a comma.
* `Parser.arguments`: The arguments of an application, or none.
-/

namespace Tptp

namespace Reading

namespace Parser

variable {σ α : Type} [Place σ]

/-- An item between parentheses. -/
def parens (p : ParserOn σ α) : ParserOn σ α :=
  labeled "parens" do
    let _ ← lift (operator "(")
    let value ← p
    let _ ← lift (operator ")")
    return value

/-- An item as one parser reads it, or in parentheses as another does. -/
def orParens (bare inner : ParserOn σ α) : ParserOn σ α :=
  ifOpens '(' (bare <|> parens inner) bare

/-- An item in any number of parentheses. The item is read with the part of the
    allowance that the parentheses leave. -/
def optionalParens (p : Nat → ParserOn σ α) : Nat → σ → Result α
  | 0, state => abort .tooDeep state
  | allowance + 1, state => orParens (p allowance) (optionalParens p allowance) state

/-- An item between brackets. -/
def brackets (p : ParserOn σ α) : ParserOn σ α :=
  labeled "brackets" do
    let _ ← lift (operator "[")
    let value ← p
    let _ ← lift (operator "]")
    return value

/-- A list between brackets, which may be empty. -/
def bracketList (item : ParserOn σ α) : ParserOn σ (List α) :=
  labeled "bracket list" (brackets (sepBy item (lift (operator ","))))

/-- A list of at least one item between brackets. -/
def bracketList1 (item : ParserOn σ α) : ParserOn σ (List α) :=
  labeled "bracket list 1" (brackets (sepBy1 item (lift (operator ","))))

/-- An item behind a comma. -/
def comma (p : ParserOn σ α) : ParserOn σ α := do
  let _ ← lift (operator ",")
  p

/-- An item behind a comma, or nothing. -/
def maybeComma (p : ParserOn σ α) : ParserOn σ (Option α) :=
  optional (comma p)

/-- A list of arguments between parentheses, or nothing at all. Once a parenthesis
    is open the list has to be completed. -/
def arguments (argument : ParserOn σ α) : ParserOn σ (List α) :=
  ifOpens '('
    (do
      let _ ← lift (operator "(")
      let first ← argument
      let others ← repeatWhile (·.opensWith ',') (comma argument)
      let _ ← lift (operator ")")
      return first :: others)
    (pure [])

/-- An item in parentheses behind a keyword. -/
def tagged (tag : String) (p : ParserOn σ α) : ParserOn σ α := do
  let _ ← lift (token tag)
  parens p

end Parser

end Reading

end Tptp
