import Tptp.Decimal.Literal
import Tptp.Reading.Layout
import Tptp.Text.Quoted
import Tptp.Vocabulary.Basic

/-!
# Tokens

The words, signs, quoted texts and numbers of the language.

A sign is taken as soon as the text starts with it. A word must not be cut out of
a longer one: if the last character of what is looked for can stand in a word,
the next character of the text must not be one that goes on with it. Members of a
vocabulary are found by trying their spellings, longest first, under the same
rule.

Integers are limited in length; a longer one is not a failure but a reason to
give up. Nothing bounds the digits behind a point.

## Main definitions

* `Parser.character`, `Parser.operator`: Signs, without and with the layout
  behind them.
* `Parser.string`, `Parser.token`: Whole words, without and with the layout
  behind them.
* `Parser.named`, `Parser.member`: Members of a vocabulary, likewise.
* `Parser.lowerWord`, `Parser.upperWord`: Words by the case of their first letter.
* `Parser.quoted`: Quoted texts.
* `Parser.numeral`, `Parser.integer`, `Parser.signed`: Integers.
* `Parser.decimalLiteral`: Decimal literals.
-/

namespace Tptp

namespace Reading

/-- The text to come starts with a word that does not go on. A word that ends in
    a sign cannot go on. -/
def Rest.hasWord (rest : Rest) (word : List Char) : Bool :=
  rest.startsWith word &&
    !(word.getLast?.any Text.isWordChar &&
      (rest.chars.drop word.length).head?.any Text.isWordChar)

namespace Parser

/-- Takes a number of characters. -/
def take (n : Nat) : Parser Unit := fun rest =>
  ⟨.done () (rest.drop n), none⟩

/-- Takes a text if the present place passes a test, and else fails. -/
def expect (label : String) (text : String) (test : Rest → List Char → Bool) : Parser String :=
  fun rest =>
    if test rest text.toList then ⟨.done text (rest.drop text.toList.length), none⟩
    else fail (label ++ " " ++ text) rest

/-- A sign. -/
def character (text : String) : Parser String :=
  expect "character" text Rest.startsWith

/-- A sign and the layout behind it. -/
def operator (text : String) : Parser String :=
  lexeme (expect "operator" text Rest.startsWith)

/-- A whole word. -/
def string (text : String) : Parser String :=
  expect "string" text Rest.hasWord

/-- A whole word and the layout behind it. -/
def token (text : String) : Parser String :=
  lexeme (expect "token" text Rest.hasWord)

/-- A member of a vocabulary, found by its spelling. -/
def named (V : Type) [Vocabulary V] : Parser V := fun rest =>
  match (Vocabulary.nameTable V).find? fun (name, _) => rest.hasWord name.toList with
  | some (name, value) => ⟨.done value (rest.drop name.toList.length), none⟩
  | none => fail ("named " ++ Vocabulary.title V) rest

/-- A member of a vocabulary and the layout behind it. -/
def member (V : Type) [Vocabulary V] : Parser V :=
  lexeme (named V)

/-- A word whose first letter lies in a class. -/
def word (label : String) (first : Char → Bool) : Parser String := fun rest =>
  match rest.chars with
  | c :: chars =>
    if first c then
      let text := c :: chars.takeWhile Text.isWordChar
      ⟨.done (String.ofList text) (rest.drop text.length), none⟩
    else fail label rest
  | [] => fail label rest

/-- A word that starts with a lower case letter. -/
def lowerWord : Parser String :=
  word "lower word" Char.isLower

/-- A word that starts with an upper case letter. -/
def upperWord : Parser String :=
  word "upper word" Char.isUpper

/-- A text between quotes. If it is not closed, the failure is at its opening. -/
def quoted (quote : Char) : Parser String := fun rest =>
  if rest.opensWith quote then
    match Text.Quoted.decode quote rest.chars.tail with
    | some (text, extent) => ⟨.done (String.ofList text) (rest.drop (extent + 1)), none⟩
    | none => fail ("quoted " ++ String.singleton quote) rest
  else fail ("character " ++ String.singleton quote) rest

/-- A digit string, read as an integer. -/
def numeral : Parser Nat := fun rest =>
  let digits := rest.span Char.isDigit
  -- The limit is on the digits as they are written, leading zeros included.
  if digits.isEmpty then fail "decimal" rest
  else if Numeral.digitLimit < digits.length then abort (.numeralTooLong digits.length) rest
  else ⟨.done (Numeral.value digits) (rest.drop digits.length), none⟩

/-- A digit string, read as an integer, and the layout behind it. -/
def integer : Parser Nat :=
  labeled "integer" (lexeme numeral)

section

variable {σ α : Type} [Place σ]

/-- What a parser matches, with an optional sign in front. Behind a minus the value
    is replaced by its negative; it is undefined if there is none. -/
def signed (negative? : α → Option α) (p : ParserOn σ α) : ParserOn σ α :=
  ifOpens '-'
    (do
      lift (take 1)
      let value ← p
      match negative? value with
      | some value => return value
      | none => abort .undefined)
    (ifOpens '+' (do lift (take 1); p) p)

end

/-- A signed integer and the layout behind it. -/
def signedInteger : Parser Int :=
  signed (fun value => some (-value)) (Int.ofNat <$> integer)

/-- A decimal literal. -/
def decimalLiteral : Parser DecimalLiteral := fun rest =>
  match DecimalLiteral.scan? rest.chars with
  | some literal => ⟨.done literal (rest.drop literal.chars.length), none⟩
  | none => fail "scientific" rest

end Parser

end Reading

end Tptp
