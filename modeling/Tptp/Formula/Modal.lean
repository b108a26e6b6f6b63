import Tptp.Term

/-!
# Modal Formulas

Formulas of quantified modal logic.

They are built like unsorted first-order formulas, with two operators on top: a
formula may be said to hold necessarily, or possibly.

## Main definitions

* `ModalFormula`: Formulas of quantified modal logic.
* `ModalFormula.quantify`: Quantification over a list of variables, checked.
-/

namespace Tptp

/-- A formula of quantified modal logic. -/
inductive ModalFormula where
  /-- A statement without logical structure. -/
  | atomic (literal : Literal)
  /-- A negation. -/
  | negated (formula : ModalFormula)
  /-- Two formulas joined by a connective. -/
  | connected (left : ModalFormula) (connective : Connective) (right : ModalFormula)
  /-- A quantifier with the variables it binds, of which there is at least one. -/
  | quantified (quantifier : Quantifier) (bound : List Var) (formula : ModalFormula)
  /-- A formula under a modal operator. -/
  | modal (modality : Modality) (formula : ModalFormula)

/-- Quantification over a list of variables, which must not be empty. -/
def ModalFormula.quantify (quantifier : Quantifier) (bound : List Var)
    (formula : ModalFormula) : Except Refusal ModalFormula :=
  if bound.isEmpty then .error .nothingBound
  else .ok (.quantified quantifier bound formula)

end Tptp
