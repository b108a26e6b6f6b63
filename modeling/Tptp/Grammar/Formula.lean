import Tptp.Formula.Basic
import Tptp.Grammar.Signature
import Tptp.Grammar.Term

/-!
# Grammar of Formulas

How formulas are written, in each of the languages.

A formula is a chain of unitary formulas with connectives between them, grouped
to the right. The first character of a unitary formula says what it is, up to one
case: behind a parenthesis there may be a formula or the first term of an
equation. There the literal is tried first.

The first-order languages and the modal one share this much. They differ in what
a quantifier lists, and in whether there are modal operators. A `Dialect` says
both, and how the parts are put together.

## Main definitions

* `Grammar.Dialect`: What distinguishes the languages.
* `Grammar.unitary`, `Grammar.chain`: Unitary formulas and chains of them.
* `Grammar.unsortedNote`, `Grammar.sortedNote`: What stands at bound variables.
* `Grammar.unsortedFormula`, `Grammar.monoFormula`, `Grammar.polyFormula`,
  `Grammar.modalFormula`: The formulas of each dialect.
* `Grammar.formula`: The formulas of a language.
-/

namespace Tptp

namespace Grammar

open Reading Parser

/-- What distinguishes the formulas of type `F` whose quantifiers list items of
    type `B`. -/
structure Dialect (F B : Type) where
  /-- An item in the list of a quantifier. -/
  binder : Nat → Parser B
  /-- The formula that is a literal. -/
  atomic : Literal → F
  /-- The negation of a formula. -/
  negated : F → F
  /-- Two formulas joined by a connective. -/
  connected : F → Connective → F → F
  /-- A quantified formula, unless the quantifier lists nothing. -/
  quantified : Quantifier → List B → F → Except Refusal F
  /-- A formula under a modal operator, if there are such. -/
  modal : Option (Modality → F → F)

namespace Dialect

variable {F B : Type}

/-- A chain of formulas, grouped to the right. -/
def groupRight (dialect : Dialect F B) (first : F) : List (Connective × F) → F
  | [] => first
  | (connective, next) :: others =>
    dialect.connected first connective (dialect.groupRight next others)

end Dialect

variable {F B : Type}

/-- A connective and the unitary formula behind it. -/
def connection (unitary : Parser F) : Parser (Connective × F) := do
  let connective ← labeled "connective" (member Connective)
  let formula ← unitary
  return (connective, formula)

/-- Unitary formulas with connectives between them. -/
def chain (dialect : Dialect F B) (unitary : Parser F) : Parser F := do
  let first ← unitary
  let others ← many (connection unitary)
  return dialect.groupRight first others

/-- A negation. -/
def negation (dialect : Dialect F B) (inner : Parser F) : Parser F := do
  let _ ← operator "~"
  let formula ← inner
  return dialect.negated formula

/-- A quantifier, what it lists, and the formula it governs. -/
def quantification (dialect : Dialect F B) (allowance : Nat) (inner : Parser F) : Parser F := do
  let quantifier ← labeled "quantifier" (member Quantifier)
  let bound ← bracketList1 (dialect.binder allowance)
  let _ ← operator ":"
  let formula ← inner
  build (dialect.quantified quantifier bound formula)

/-- A modal operator and the formula it governs. -/
def modalization (apply : Modality → F → F) (inner : Parser F) : Parser F := do
  let modality ← labeled "modality" (member Modality)
  let _ ← operator ":"
  let formula ← inner
  return apply modality formula

/-- A literal, or a formula between parentheses. -/
def basicFormula (dialect : Dialect F B) (allowance : Nat) (inner : Parser F) : Parser F :=
  -- The parenthesis may belong to a term: `(f(X)) = a` is a literal.
  orParens (dialect.atomic <$> literal allowance) (chain dialect inner)

/-- A unitary formula whose parts are read by a given parser. Its first character
    says what it is. -/
def unitaryRule (dialect : Dialect F B) (allowance : Nat) (inner : Parser F) : Parser F :=
  labeled "unitary formula" <|
    ifOpens '~' (negation dialect inner) <|
    ifOpens '!' (quantification dialect allowance inner) <|
    ifOpens '?' (quantification dialect allowance inner) <|
    match dialect.modal with
    | some apply => ifOpens '#' (modalization apply inner) (basicFormula dialect allowance inner)
    | none => basicFormula dialect allowance inner

/-- A unitary formula, nested as deep as the allowance. -/
def unitary (dialect : Dialect F B) : Nat → Rest → Result F
  | 0, rest => abort .tooDeep rest
  | allowance + 1, rest => unitaryRule dialect allowance (unitary dialect allowance) rest

/-- A formula of a dialect. -/
def formulaOf (dialect : Dialect F B) (allowance : Nat) : Parser F :=
  chain dialect (unitary dialect allowance)

variable {α : Type}

/-- A bound variable with a note behind it. -/
def notedVariable (note : Nat → Parser α) (allowance : Nat) : Parser (Var × α) := do
  let v ← var
  let value ← note allowance
  return (v, value)

/-- First-order logic with notes at the bound variables. -/
def firstOrder (note : Nat → Parser α) : Dialect (FirstOrder α) (Var × α) where
  binder := notedVariable note
  atomic := .atomic
  negated := .negated
  connected := .connected
  quantified := FirstOrder.quantify
  modal := none

/-- Quantified modal logic. -/
def modalLogic : Dialect ModalFormula Var where
  binder _ := var
  atomic := .atomic
  negated := .negated
  connected := .connected
  quantified := ModalFormula.quantify
  modal := some .modal

/-- The note of an unsorted variable, which is empty. -/
def unsortedNote (_ : Nat) : Parser Unsorted :=
  pure .unsorted

section

variable {σ : Type} [Place σ]

/-- A sort behind a colon. -/
def givenSort (sort : Nat → ParserOn σ α) (allowance : Nat) : ParserOn σ α := do
  let _ ← lift (operator ":")
  optionalParens sort allowance

/-- The note of a sorted variable: a sort behind a colon, or nothing. -/
def sortedNote (sort : Nat → ParserOn σ α) (allowance : Nat) : ParserOn σ (Sorted α) :=
  labeled "sorted" (Sorted.mk <$> optional (givenSort sort allowance))

end

/-- The sort of a variable in a monomorphic formula. It takes as much of the allowance
    as a sort without arguments does in a polymorphic one. -/
def plainSort : Nat → Rest → Result SortName
  | 0, rest => abort .tooDeep rest
  | _ + 1, rest => sort rest

/-- The sort of a variable in a polymorphic formula, or the sort of all sorts. -/
def polyRange (allowance : Nat) : Parser (PolyRange SortName) :=
  (fun _ => .sorts) <$> kind <|> PolyRange.members <$> polySort allowance

/-- An unsorted formula. -/
def unsortedFormula (allowance : Nat) : Parser UnsortedFormula :=
  labeled "fof" (formulaOf (firstOrder unsortedNote) allowance)

/-- A monomorphic formula. -/
def monoFormula (allowance : Nat) : Parser MonoFormula :=
  labeled "tff0" (formulaOf (firstOrder (sortedNote plainSort)) allowance)

/-- A polymorphic formula. -/
def polyFormula (allowance : Nat) : Parser PolyFormula :=
  labeled "tff1" (formulaOf (firstOrder (sortedNote polyRange)) allowance)

/-- A modal formula. -/
def modalFormula (allowance : Nat) : Parser ModalFormula :=
  formulaOf modalLogic allowance

/-- A formula of the sorted language, polymorphic only if it has to be. -/
def sortedFormula (allowance : Nat) : Parser Formula :=
  Formula.ofPoly <$> polyFormula allowance

/-- A formula of a language. -/
def formula (language : Language) (allowance : Nat) : Parser Formula :=
  match language with
  | .cnf => labeled "cnf" (Formula.cnf <$> clause allowance)
  | .fof => labeled "fof" (Formula.fof <$> unsortedFormula allowance)
  | .tff => labeled "tff" (sortedFormula allowance)
  | .qmf => labeled "qmf" (Formula.qmf <$> modalFormula allowance)

/-- A formula of a language that may turn out not to exist. -/
def formulaIn (language : Option Language) (allowance : Nat) : Parser Formula :=
  match language with
  | some language => formula language allowance
  | none => abort .unknownLanguage

end Grammar

end Tptp
