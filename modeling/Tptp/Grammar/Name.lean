import Tptp.Name
import Tptp.Reading.Bracket
import Tptp.Vocabulary.Logic

/-!
# Grammar of Names

How atoms, variables, distinct objects and reserved words are written.

An atom is a word that starts with a lower case letter, or any text between
single quotes except the empty one. A variable starts with an upper case letter.
A reserved word in a name stands behind a dollar sign, which is not a token of
its own: no layout may separate it from the word.

## Main definitions

* `Grammar.atom`, `Grammar.var`, `Grammar.distinctObject`: Names of the user.
* `Grammar.reserved`: The bare reserved words of a vocabulary.
* `Grammar.name`: Names in a place that a vocabulary belongs to.
* `Grammar.function`, `Grammar.predicate`, `Grammar.sort`: The three such places.
-/

namespace Tptp

namespace Grammar

open Reading Parser

/-- An atom. -/
def atom : Parser Atom :=
  labeled "atom" do
    let text ← lexeme (quoted '\x27' <|> lowerWord)
    -- An empty text between quotes is read before it is turned down.
    if text.isEmpty then fail "non-empty atom" else build (Atom.ofText text)

/-- A variable. -/
def var : Parser Var :=
  labeled "var" do
    let text ← lexeme upperWord
    build (Var.ofText text)

/-- A distinct object. -/
def distinctObject : Parser DistinctObject :=
  labeled "distinct object" do
    let text ← lexeme (quoted '"')
    build (DistinctObject.ofText text)

/-- A reserved word without the dollar sign, in a place that `V` belongs to. -/
def reserved (V : Type) [Vocabulary V] : Parser (Reserved V) :=
  labeled "reserved" (Reserved.ofWord <$> lexeme lowerWord)

/-- A reserved word behind a dollar sign. -/
def reservedName (V : Type) [Vocabulary V] : Parser (Name V) := do
  let _ ← character "$"
  Name.reserved <$> reserved V

/-- A name in a place that `V` belongs to. -/
def name (V : Type) [Vocabulary V] : Parser (Name V) :=
  labeled "name" (reservedName V <|> Name.user <$> atom)

/-- The name of a function symbol. -/
def function : Parser (Name DefinedFunction) :=
  labeled "function" (name DefinedFunction)

/-- The name of a predicate symbol. -/
def predicate : Parser (Name DefinedPredicate) :=
  labeled "predicate" (name DefinedPredicate)

/-- The name of a sort or of a sort constructor. -/
def sort : Parser (Name DefinedSort) :=
  labeled "sort" (name DefinedSort)

end Grammar

end Tptp
