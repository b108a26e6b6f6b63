import Tptp.Proofs.Lexical.Layout
import Tptp.Reading.Token

/-!
# Primitives

The parsers that are not made of others, and the failures that they raise.

All that a primitive does about failures is to raise one, and then it ends with it. It
drops none, and there is no label on its failure but the first. The place of the failure
need not be the one where the primitive was called: skipping layout fails at a comment
that has no end, wherever that starts.

## Main definitions

* `IsPrimitive`: The primitives.
* `PrimitiveResult`: What a primitive comes to.

## Theorems

* `IsPrimitive.result`: Primitives raise at most one failure, in the text.
-/

namespace Tptp

namespace Reading

/-- The parser is not made of others. -/
inductive IsPrimitive : {α : Type} → Parser α → Prop where
  | fail {α : Type} (label : String) : IsPrimitive (Parser.fail label : Parser α)
  | abort {α : Type} (reason : Abort) : IsPrimitive (Parser.abort reason : Parser α)
  | take (n : Nat) : IsPrimitive (Parser.take n)
  | sign (label sign : String) : IsPrimitive (Parser.expect label sign Rest.startsWith)
  | wholeWord (label word : String) : IsPrimitive (Parser.expect label word Rest.hasWord)
  | named (V : Type) [Vocabulary V] : IsPrimitive (Parser.named V)
  | word (label : String) (first : Char → Bool) : IsPrimitive (Parser.word label first)
  | quoted (quote : Char) : IsPrimitive (Parser.quoted quote)
  | numeral : IsPrimitive Parser.numeral
  | decimalLiteral : IsPrimitive Parser.decimalLiteral
  | skipLayout : IsPrimitive Parser.skipLayout
  | skipBlanks : IsPrimitive Parser.skipBlanks
  | restOfLine : IsPrimitive Parser.restOfLine
  | endOfInput : IsPrimitive Parser.endOfInput

variable {α : Type}

/-- What a parser comes to that does nothing but read on or raise a failure. -/
inductive PrimitiveResult (text : List Char) : Result α → Prop where
  | done (value : α) {left : List Char} (h : left.length ≤ text.length) :
      PrimitiveResult text ⟨.done value (.ofList left), none⟩
  | failed (label : String) {left : List Char} (h : left.length ≤ text.length) :
      PrimitiveResult text (Parser.fail label (Rest.ofList left))
  | aborted (reason : Abort) : PrimitiveResult text ⟨.aborted reason, none⟩

namespace PrimitiveResult

/-- Moving on is a step of a primitive. -/
theorem drop (value : α) (n : Nat) (text : List Char) :
    PrimitiveResult text ⟨.done value ((Rest.ofList text).drop n), none⟩ := by
  rw [Rest.drop_ofList]
  refine .done value ?_
  rw [List.length_drop]
  exact Nat.sub_le _ _

theorem fail (label : String) (text : List Char) :
    PrimitiveResult text (Parser.fail label (Rest.ofList text) : Result α) :=
  .failed label (Nat.le_refl _)

theorem expect (label sign : String) (test : Rest → List Char → Bool) (text : List Char) :
    PrimitiveResult text (Parser.expect label sign test (.ofList text)) := by
  rw [Parser.expect]
  split
  · exact .drop sign _ text
  · exact .fail _ text

theorem named (V : Type) [Vocabulary V] (text : List Char) :
    PrimitiveResult text (Parser.named V (.ofList text)) := by
  rw [Parser.named]
  split
  · exact .drop _ _ text
  · exact .fail _ text

theorem word (label : String) (first : Char → Bool) (text : List Char) :
    PrimitiveResult text (Parser.word label first (.ofList text)) := by
  rw [Parser.word]
  split
  · split
    · exact .drop _ _ text
    · exact .fail _ text
  · exact .fail _ text

theorem quoted (quote : Char) (text : List Char) :
    PrimitiveResult text (Parser.quoted quote (.ofList text)) := by
  rw [Parser.quoted]
  split
  · split
    · exact .drop _ _ text
    · exact .fail _ text
  · exact .fail _ text

theorem numeral (text : List Char) :
    PrimitiveResult text (Parser.numeral (.ofList text)) := by
  rw [Parser.numeral]
  split
  · exact .fail _ text
  · split
    · exact .aborted _
    · exact .drop _ _ text

theorem decimalLiteral (text : List Char) :
    PrimitiveResult text (Parser.decimalLiteral (.ofList text)) := by
  rw [Parser.decimalLiteral]
  split
  · exact .drop _ _ text
  · exact .fail _ text

/-- Layout without an end is where skipping fails. -/
theorem skipLayout (text : List Char) :
    PrimitiveResult text (Parser.skipLayout (.ofList text)) := by
  rcases exists_skips text with ⟨left, hskips, hleft | hleft⟩
  · rw [skipLayout_eq_of_skips hskips, skipLayout_significant hleft]
    exact .done () hskips.length_le
  · rw [skipLayout_eq_of_skips hskips, skipLayout_unclosed hleft]
    exact .failed _ hskips.length_le

theorem skipBlanks (text : List Char) :
    PrimitiveResult text (Parser.skipBlanks (.ofList text)) := by
  rw [Parser.skipBlanks, Rest.skipWhile_ofList]
  exact .done () (List.dropWhile_suffix _).length_le

theorem restOfLine (text : List Char) :
    PrimitiveResult text (Parser.restOfLine (.ofList text)) := by
  have hline : (Rest.ofList text).nextLine =
      (Rest.ofList text).drop ((Rest.ofList text).line.length + 1) := Rest.ext rfl rfl
  rw [Parser.restOfLine, hline]
  exact .drop _ _ text

theorem endOfInput (text : List Char) :
    PrimitiveResult text (Parser.endOfInput (.ofList text)) := by
  rw [Parser.endOfInput]
  split
  · exact .done () (Nat.le_refl _)
  · exact .fail _ text

end PrimitiveResult

/-- Primitives raise at most one failure, in the text. -/
theorem IsPrimitive.result {p : Parser α} (h : IsPrimitive p) (text : List Char) :
    PrimitiveResult text (p (.ofList text)) := by
  cases h with
  | fail label => exact .fail label text
  | abort reason => exact .aborted reason
  | take n => exact .drop () n text
  | sign label sign => exact .expect label sign _ text
  | wholeWord label word => exact .expect label word _ text
  | named => exact .named _ text
  | word label first => exact .word label first text
  | quoted quote => exact .quoted quote text
  | numeral => exact .numeral text
  | decimalLiteral => exact .decimalLiteral text
  | skipLayout => exact .skipLayout text
  | skipBlanks => exact .skipBlanks text
  | restOfLine => exact .restOfLine text
  | endOfInput => exact .endOfInput text

end Reading

end Tptp
