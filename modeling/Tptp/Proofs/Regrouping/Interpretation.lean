import Mathlib.Logic.Function.Basic
import Tptp.Formula.FirstOrder

/-!
# The Meaning of Formulas

When a formula holds, whatever its symbols stand for.

What a formula is built of besides literals has a fixed meaning. All else is left to an
interpretation: the objects that there are, which literals hold when the variables have their
values, and what a variable with a given note ranges over. A note may speak of variables that
were bound before, as that of a variable over a sort does which is itself a variable. So
this covers the formulas of all languages, whatever is noted at their variables.

## Main definitions

* `Connective.Joins`: What a connective says of two statements.
* `FirstOrder.Interpretation`: What literals and notes stand for.
* `FirstOrder.Interpretation.Bound`: A statement about all or some values of variables.
* `FirstOrder.Interpretation.Holds`: When a formula holds.
-/

namespace Tptp

universe u

/-- What a connective says of two statements. -/
def Connective.Joins : Connective → Prop → Prop → Prop
  | .conjunction, p, q => p ∧ q
  | .disjunction, p, q => p ∨ q
  | .implication, p, q => p → q
  | .equivalence, p, q => p ↔ q
  | .exclusiveOr, p, q => ¬ (p ↔ q)
  | .negatedConjunction, p, q => ¬ (p ∧ q)
  | .negatedDisjunction, p, q => ¬ (p ∨ q)
  | .reversedImplication, p, q => q → p

/-- Of an associative connective the grouping has no meaning. -/
theorem Connective.joins_assoc {c : Connective} (hc : c.isAssociative = true) (p q r : Prop) :
    c.Joins p (c.Joins q r) ↔ c.Joins (c.Joins p q) r := by
  cases c with
  | conjunction => exact and_assoc.symm
  | disjunction => exact or_assoc.symm
  | _ => exact absurd hc Bool.false_ne_true

namespace FirstOrder

variable {α : Type}

/-- What literals and notes stand for. -/
structure Interpretation (α : Type) where
  /-- The objects that there are. -/
  Domain : Type u
  /-- A literal holds where the variables have these values. -/
  Literal : (Var → Domain) → Literal → Prop
  /-- A variable with the note ranges over the object, where the variables that were bound
      before have these values. -/
  Range : (Var → Domain) → α → Domain → Prop

namespace Interpretation

variable (I : Interpretation.{u} α)

/-- What a quantifier says of the variables that it binds, one after the other. -/
def Bound (quantifier : Quantifier) (statement : (Var → I.Domain) → Prop) :
    List (Var × α) → (Var → I.Domain) → Prop
  | [], values => statement values
  | (v, note) :: others, values =>
    match quantifier with
    | .universal => ∀ d, I.Range values note d →
        Bound quantifier statement others (Function.update values v d)
    | .existential => ∃ d, I.Range values note d ∧
        Bound quantifier statement others (Function.update values v d)

/-- When a formula holds. -/
def Holds : FirstOrder α → (Var → I.Domain) → Prop
  | .atomic literal, values => I.Literal values literal
  | .negated formula, values => ¬ Holds formula values
  | .connected left connective right, values =>
    connective.Joins (Holds left values) (Holds right values)
  | .quantified quantifier bound formula, values =>
    I.Bound quantifier (Holds formula) bound values

end Interpretation

end FirstOrder

end Tptp
