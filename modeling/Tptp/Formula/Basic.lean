import Tptp.Formula.Conversion
import Tptp.Formula.Modal

/-!
# Formulas of a Language

Formulas together with the language they are written in.

The sorted language has two kinds of formulas. A polymorphic formula is kept as
one only if it cannot be monomorphic, and `Formula.ofPoly` sees to that.

## Main definitions

* `Formula`: Formulas of all languages.
* `Formula.language`: The language of a formula.
* `Formula.ofPoly`: The formula of the sorted language that a polymorphic
  formula stands for.
-/

namespace Tptp

/-- A formula of one of the languages. -/
inductive Formula where
  /-- A clause. -/
  | cnf (clause : Clause)
  /-- An unsorted first-order formula. -/
  | fof (formula : UnsortedFormula)
  /-- A monomorphic first-order formula. -/
  | tff0 (formula : MonoFormula)
  /-- A first-order formula that needs polymorphism. -/
  | tff1 (formula : PolyFormula)
  /-- A modal formula. -/
  | qmf (formula : ModalFormula)

namespace Formula

/-- The language a formula is written in. -/
def language : Formula → Language
  | .cnf _ => .cnf
  | .fof _ => .fof
  | .tff0 _ => .tff
  | .tff1 _ => .tff
  | .qmf _ => .qmf

/-- A polymorphic formula as one of the sorted language: monomorphic if it can
    be. -/
def ofPoly (formula : PolyFormula) : Formula :=
  match formula.toMono? with
  | some mono => .tff0 mono
  | none => .tff1 formula

end Formula

end Tptp
