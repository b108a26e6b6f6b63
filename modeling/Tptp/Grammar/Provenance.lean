import Tptp.Grammar.Formula
import Tptp.Provenance

/-!
# Grammar of Provenance

How sources and useful information are written.

Both are choices between many shapes. Shapes with a meaning of their own start
with a keyword and come first, so the general shape, any atom with arguments,
gets what no keyword has claimed. Inside quoted formulas and terms the grammar of
formulas takes over.

## Main definitions

* `Grammar.unitName`, `Grammar.unitNames`: Names of units.
* `Grammar.expression`: Quoted formulas and terms.
* `Grammar.info`, `Grammar.infos`: Pieces of information and lists of them.
* `Grammar.source`, `Grammar.parent`: Sources and parents.
* `Grammar.provenance`: A source with its information.

## Theorems

* `Grammar.infoArgument_eq`: The argument production only adds parentheses.
-/

namespace Tptp

namespace Grammar

open Reading Parser

/-- The language a formula is said to be written in. -/
def language : Parser Language :=
  labeled "language" (member Language)

/-- The name of a unit, an atom or a signed integer. -/
def unitName : Parser UnitName :=
  labeled "unit name" (UnitName.atom <$> atom <|> UnitName.number <$> signedInteger)

/-- A list of names of units. -/
def unitNames : Parser (List UnitName) :=
  labeled "unit names" (bracketList1 unitName)

/-- The way in which a formula was introduced. -/
def intro : Parser (Reserved Intro) :=
  labeled "intro" (reserved Intro)

/-- A quoted formula behind the name of its language. -/
def quotedFormula (allowance : Nat) : Parser Expression := do
  let language ← language
  Expression.formula <$> parens (optionalParens (formula language) allowance)

/-- A quoted formula or term. -/
def expression (allowance : Nat) : Parser Expression :=
  labeled "expression" do
    let _ ← character "$"
    tagged "fot" (Expression.term <$> termArgument allowance) <|> quotedFormula allowance

/-- The units that are assumed. -/
def assumptions : Parser Info := do
  let names ← unitNames
  build (Info.ofAssumptions names)

/-- The kind of a step that made symbols up, and the symbols. -/
def newSymbols : Parser Info := do
  let name ← atom
  let symbols ← comma (bracketList (Symbol.var <$> var <|> Symbol.atom <$> atom))
  return .newSymbols name symbols

/-- A variable and what it was bound to. -/
def binding (allowance : Nat) : Parser Info := do
  let v ← var
  let value ← comma (expression allowance)
  return .bind v value

/-- A record in the form of an application. -/
def generalApplication (argument : Parser Info) : Parser Info := do
  let name ← atom
  let infos ← arguments argument
  return .application name infos

/-- A list of information, the pieces of which are read by a given parser. -/
def infoList (info : Parser Info) : Parser (List Info) :=
  labeled "infos" (bracketList info)

/-- A piece of information. The pieces inside it are read by a given parser, and
    the arguments of a record by another. -/
def infoRule (allowance : Nat) (info argument : Parser Info) : Parser Info :=
  labeled "info" <|
    tagged "description" (Info.description <$> atom) <|>
    tagged "iquote" (Info.iquote <$> atom) <|>
    tagged "status" (Info.status <$> reserved Success) <|>
    tagged "assumptions" assumptions <|>
    tagged "refutation" (Info.refutation <$> atom) <|>
    tagged "new_symbols" newSymbols <|>
    tagged "bind" (binding allowance) <|>
    Info.expression <$> expression allowance <|>
    generalApplication argument <|>
    Info.number <$> number <|>
    Info.infos <$> infoList info

mutual

/-- A piece of information, nested as deep as the allowance. -/
def info : Nat → Rest → Result Info
  | 0, rest => abort .tooDeep rest
  | allowance + 1, rest => infoRule allowance (info allowance) (infoArgument allowance) rest

/-- A piece of information in redundant parentheses. -/
def infoArgument : Nat → Rest → Result Info
  | 0, rest => abort .tooDeep rest
  | allowance + 1, rest => orParens (info allowance) (infoArgument allowance) rest

end

/-- The argument production only adds parentheses. -/
theorem infoArgument_eq : infoArgument = optionalParens info := by
  funext allowance
  induction allowance with
  | zero => rfl
  | succ allowance ih =>
      funext rest
      change orParens (info allowance) (infoArgument allowance) rest = _
      rw [ih]
      rfl

/-- A list of information. -/
def infos (allowance : Nat) : Parser (List Info) :=
  infoList (info allowance)

/-- A parent, the source of which is read by a given parser. -/
def parentRule (allowance : Nat) (source : Parser Source) : Parser Parent :=
  labeled "parent" do
    let source ← source
    let infos ← withDefault [] do
      let _ ← operator ":"
      infos allowance
    return .of source infos

/-- The file a unit comes from. -/
def file : Parser Source := do
  let name ← atom
  let unit ← maybeComma unitName
  return .file name unit

/-- The theory a unit comes from. -/
def theory (allowance : Nat) : Parser Source := do
  let name ← atom
  let infos ← maybeComma (infos allowance)
  return .theory name infos

/-- The program that made a unit up. -/
def creator (allowance : Nat) : Parser Source := do
  let name ← atom
  let infos ← maybeComma (infos allowance)
  return .creator name infos

/-- The way in which a unit came in without parents. -/
def introduced (allowance : Nat) : Parser Source := do
  let intro ← intro
  let infos ← maybeComma (infos allowance)
  return .introduced intro infos

/-- The inference that made a unit, the parents of which are read by a given
    parser. -/
def inference (allowance : Nat) (parent : Parser Parent) : Parser Source := do
  let rule ← atom
  let infos ← comma (infos allowance)
  let parents ← comma (bracketList parent)
  return .inference rule infos parents

/-- A source, the parents of which are read by a given parser. -/
def sourceRule (allowance : Nat) (parent : Parser Parent) : Parser Source :=
  labeled "source" <|
    (fun _ => .unknown) <$> token "unknown" <|>
    tagged "file" file <|>
    tagged "theory" (theory allowance) <|>
    tagged "creator" (creator allowance) <|>
    tagged "introduced" (introduced allowance) <|>
    tagged "inference" (inference allowance parent) <|>
    Source.unit <$> unitName

/-- A source, nested as deep as the allowance. -/
def source : Nat → Rest → Result Source
  | 0, rest => abort .tooDeep rest
  | allowance + 1, rest =>
    sourceRule allowance (parentRule allowance (source allowance)) rest

/-- A parent. -/
def parent (allowance : Nat) : Parser Parent :=
  parentRule allowance (source allowance)

/-- A source with its information. -/
def provenance (allowance : Nat) : Parser Provenance :=
  labeled "annotation" do
    let source ← source allowance
    let infos ← maybeComma (infos allowance)
    return ⟨source, infos⟩

end Grammar

end Tptp
