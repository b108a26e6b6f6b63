import Tptp.Document
import Tptp.Grammar.Provenance
import Tptp.Szs.Comment

/-!
# Grammar of Documents

How units, problems and transcripts are written.

A unit declares a sort, the type of a symbol, or a formula. The first two stand
behind the role `type`, which as any other role may also introduce a formula; so
the declaration of a type is tried first, and within it that of a sort, since the
sort of all sorts is not a sort that a type could be made of.

The comment lines at the start of a transcript are read one by one for what they
announce, before the ordinary skipping of layout sets in.

## Main definitions

* `Grammar.typeDeclaration`, `Grammar.declaration`: Declarations.
* `Grammar.inclusion`, `Grammar.annotatedUnit`, `Grammar.entry`: Entries.
* `Grammar.problem`, `Grammar.transcript`: Documents.
* `Grammar.announcements`: The leading comment lines of a transcript.
-/

namespace Tptp

namespace Grammar

open Reading Parser

/-- What a formula is there for. -/
def role : Parser (Reserved Role) :=
  labeled "role" (reserved Role)

/-- The number of arguments of a sort constructor, written as its type. -/
def arity (allowance : Nat) : Parser Nat := do
  let (arguments, _) ← mapping (kindArgument allowance)
  return arguments.length

/-- The declaration of a sort constructor. -/
def sortDeclaration (allowance : Nat) : Parser Declaration := do
  let name ← atom
  let _ ← operator ":"
  let arity ← optionalParens arity allowance
  build (Declaration.ofArity name arity)

/-- The declaration of the type of a symbol. -/
def typing (allowance : Nat) : Parser Declaration := do
  let name ← atom
  let _ ← operator ":"
  let signature ← optionalParens signature allowance
  return .typing name signature

/-- The declaration of a sort constructor or of the type of a symbol. -/
def typeDeclaration (allowance : Nat) : Parser Declaration :=
  labeled "type declaration" (sortDeclaration allowance <|> typing allowance)

/-- A declaration behind the role of types. -/
def typedDeclaration (allowance : Nat) : Parser Declaration := do
  let _ ← token "type"
  comma (optionalParens typeDeclaration allowance)

/-- A formula behind its role, read by a given parser. -/
def formulaDeclaration (formula : Parser Formula) : Parser Declaration := do
  let role ← role
  let statement ← comma formula
  return .formula role statement

/-- A declaration, the formula of which is read by a given parser. -/
def declaration (formula : Parser Formula) (allowance : Nat) : Parser Declaration :=
  labeled "declaration" (typedDeclaration allowance <|> formulaDeclaration formula)

/-- The file of an inclusion, and the selection of its units. -/
def includedFile : Parser Include := do
  let file ← atom
  let selection ← maybeComma unitNames
  build (Include.ofSelection file selection)

/-- The inclusion of a file. -/
def inclusion : Parser Include :=
  labeled "include" do
    let inclusion ← tagged "include" includedFile
    let _ ← operator "."
    return inclusion

/-- The parts of a unit, given its language. -/
def unitParts (language : Language) (allowance : Nat) : Parser AnnotatedUnit := do
  let name ← unitName
  let declaration ← comma (declaration (formula language allowance) allowance)
  let provenance ← maybeComma (provenance allowance)
  return ⟨name, declaration, provenance⟩

/-- A unit. -/
def annotatedUnit (allowance : Nat) : Parser AnnotatedUnit :=
  labeled "annotated unit" do
    let language ← language
    let unit ← parens (unitParts language allowance)
    let _ ← operator "."
    return unit

/-- An entry of a document. -/
def entry (allowance : Nat) : Parser Entry :=
  labeled "unit" (Entry.inclusion <$> inclusion <|> Entry.unit <$> annotatedUnit allowance)

/-- Entries up to the end of the text. -/
def entries (allowance : Nat) : Parser (List Entry) :=
  repeatWhile (fun rest => !rest.atEnd) (entry allowance)

/-- A problem. -/
def problem (allowance : Nat) : Parser Problem :=
  labeled "tptp" (Document.mk <$> entries allowance)

/-- What a comment line announces. -/
def announcement : Parser Szs.Summary := do
  -- Layout is not skipped as a whole, since the next line may announce more.
  take 1
  let line ← restOfLine
  skipBlanks
  return (Szs.Summary.ofComment? line).getD .empty

/-- What the comment lines at the present place announce. The first announcement
    of a status and the first of a form of data count. -/
def announcements : Parser Szs.Summary := do
  skipBlanks
  let lines ← repeatWhile (·.opensWith '%') announcement
  return lines.foldl Szs.Summary.join .empty

/-- A transcript. -/
def transcript (allowance : Nat) : Parser Transcript :=
  labeled "tstp" do
    let szs ← announcements
    skipLayout
    let entries ← entries allowance
    return ⟨szs, entries⟩

end Grammar

end Tptp
