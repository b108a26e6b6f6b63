import Tptp.Grammar.Name
import Tptp.Signature

/-!
# Grammar of Sorts and Types

How sorts and types are written.

A type with arguments is `s > r` for one of them and `(s * ... * t) > r` for
more. A type that binds sort variables starts with `!>` and the list of them.
Redundant parentheses are accepted around every sort and around the mapping as a
whole.

Whether a text starts with a mapping or with a plain sort shows only at the arrow,
so the arguments are tried and given up if no arrow follows.

## Main definitions

* `Grammar.polySort`: Sorts.
* `Grammar.polySortArgument`: Sorts in redundant parentheses.
* `Grammar.mapping`: Argument sorts and result, for any kind of sort.
* `Grammar.kind`: The sort of all sorts.
* `Grammar.signature`: Types.

## Theorems

* `Grammar.polySortArgument_eq`: The argument production only adds parentheses.
-/

namespace Tptp

namespace Grammar

open Reading Parser

/-- A sort whose arguments are read by a given parser. -/
def polySortRule (argument : Parser (PolySort SortName)) :
    Parser (PolySort SortName) :=
  labeled "tff1 sort" <|
    PolySort.var <$> var <|> do
      let name ← sort
      let sorts ← arguments argument
      return .application name sorts

mutual

/-- A sort, nested as deep as the allowance. -/
def polySort : Nat → Rest → Result (PolySort SortName)
  | 0, rest => abort .tooDeep rest
  | allowance + 1, rest => polySortRule (polySortArgument allowance) rest

/-- A sort in redundant parentheses. -/
def polySortArgument : Nat → Rest → Result (PolySort SortName)
  | 0, rest => abort .tooDeep rest
  | allowance + 1, rest => orParens (polySort allowance) (polySortArgument allowance) rest

end

/-- The argument production only adds parentheses. -/
theorem polySortArgument_eq : polySortArgument = optionalParens polySort := by
  funext allowance
  induction allowance with
  | zero => rfl
  | succ allowance ih =>
      funext rest
      change orParens (polySort allowance) (polySortArgument allowance) rest = _
      rw [ih]
      rfl

variable {σ α : Type} [Place σ]

/-- The argument sorts of a mapping and the arrow behind them. -/
def mappingArguments (item : ParserOn σ α) : ParserOn σ (List α) := do
  let sorts ← (fun sort => [sort]) <$> item <|> parens (sepBy1 item (lift (operator "*")))
  let _ ← lift (operator ">")
  return sorts

/-- Argument sorts, possibly none, and a result sort. -/
def mapping (item : ParserOn σ α) : ParserOn σ (List α × α) := do
  let sorts ← withDefault [] (mappingArguments item)
  let result ← item
  return (sorts, result)

/-- The sort of all sorts. -/
def kind : Parser Unit := do
  let _ ← token "$tType"

/-- The sort of all sorts in redundant parentheses. -/
def kindArgument : Nat → Rest → Result Unit :=
  optionalParens fun _ => kind

/-- A sort variable as a type binds it. -/
def boundSortVariable (allowance : Nat) : Parser Var := do
  let v ← var
  let _ ← operator ":"
  kindArgument allowance
  return v

/-- The quantifier of a type. -/
def typeQuantifier (allowance : Nat) : Parser (List Var) := do
  let _ ← token "!>"
  let bound ← bracketList1 (boundSortVariable allowance)
  let _ ← operator ":"
  return bound

/-- A type. -/
def signature (allowance : Nat) : Parser Signature :=
  labeled "type" do
    let bound ← withDefault [] (typeQuantifier allowance)
    let (sorts, result) ←
      optionalParens (fun allowance => mapping (polySortArgument allowance)) allowance
    return .ofSorts bound sorts result

end Grammar

end Tptp
