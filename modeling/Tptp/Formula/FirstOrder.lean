import Tptp.Term

/-!
# First-Order Formulas

Formulas of first-order logic, whatever is noted at their variables.

The unsorted, the monomorphic and the polymorphic language share their formulas
and differ in what a quantifier may say about a variable it binds. The type of
that note is a parameter, so a formula of one language becomes one of another
by replacing notes and nothing else.

`map` replaces every note. `mapM` does so with an effect, taking the notes from
left to right: the variables of a quantifier in order and before its body, a
left operand before the right one. With `Option` for the effect it is the
replacement that may fail, and it stops at the first note that is rejected.

## Main definitions

* `FirstOrder`: Formulas over a type of notes.
* `FirstOrder.quantify`: Quantification over a list of variables, checked.
* `FirstOrder.quantifyAny`: Quantification that drops an empty quantifier.
* `FirstOrder.notes`: The notes of a formula from left to right.
* `FirstOrder.map`, `FirstOrder.mapM`: Replacing notes.

## Theorems

* `FirstOrder.map_id`: Replacing every note by itself changes nothing.
* `FirstOrder.map_map`: Two replacements are one.
* `FirstOrder.notes_map`: The notes of the result are the replaced notes.
-/

namespace Tptp

/-- A formula of first-order logic with a note of type `α` at every variable
    that a quantifier binds. -/
inductive FirstOrder (α : Type) where
  /-- A statement without logical structure. -/
  | atomic (literal : Literal)
  /-- A negation. -/
  | negated (formula : FirstOrder α)
  /-- Two formulas joined by a connective. -/
  | connected (left : FirstOrder α) (connective : Connective) (right : FirstOrder α)
  /-- A quantifier with the variables it binds, of which there is at least one. -/
  | quantified (quantifier : Quantifier) (bound : List (Var × α)) (formula : FirstOrder α)

namespace FirstOrder

variable {α β γ : Type}

/-- Quantification over a list of variables, which must not be empty. -/
def quantify (quantifier : Quantifier) (bound : List (Var × α)) (formula : FirstOrder α) :
    Except Refusal (FirstOrder α) :=
  if bound.isEmpty then .error .nothingBound
  else .ok (.quantified quantifier bound formula)

/-- Quantification over a list of variables, which without any of them is the
    formula itself. -/
def quantifyAny (quantifier : Quantifier) (bound : List (Var × α)) (formula : FirstOrder α) :
    FirstOrder α :=
  if bound.isEmpty then formula else .quantified quantifier bound formula

/-- The notes of a formula from left to right. -/
def notes : FirstOrder α → List α
  | .atomic _ => []
  | .negated formula => formula.notes
  | .connected left _ right => left.notes ++ right.notes
  | .quantified _ bound formula => bound.map Prod.snd ++ formula.notes

/-- Replaces every note `a` by `f a`. -/
def map (f : α → β) : FirstOrder α → FirstOrder β
  | .atomic literal => .atomic literal
  | .negated formula => .negated (formula.map f)
  | .connected left connective right => .connected (left.map f) connective (right.map f)
  | .quantified quantifier bound formula =>
    .quantified quantifier (bound.map fun (v, a) => (v, f a)) (formula.map f)

/-- Replaces every note `a` by the result of `f a`, from left to right. -/
def mapM {m : Type → Type} [Monad m] (f : α → m β) : FirstOrder α → m (FirstOrder β)
  | .atomic literal => pure (.atomic literal)
  | .negated formula => do
    let formula ← formula.mapM f
    return .negated formula
  | .connected left connective right => do
    let left ← left.mapM f
    let right ← right.mapM f
    return .connected left connective right
  | .quantified quantifier bound formula => do
    let bound ← bound.mapM fun (v, a) => do
      let b ← f a
      return (v, b)
    let formula ← formula.mapM f
    return .quantified quantifier bound formula

/-- Replacing every note by itself changes nothing. -/
theorem map_id (formula : FirstOrder α) : formula.map id = formula := by
  induction formula with
  | atomic => rfl
  | negated _ ih => simp only [map, ih]
  | connected _ _ _ ihl ihr => simp only [map, ihl, ihr]
  | quantified _ bound _ ih =>
      have h : bound.map (fun (v, a) => (v, id a)) = bound := List.map_id bound
      simp only [map, ih, h]

/-- Two replacements are one. -/
theorem map_map (g : β → γ) (f : α → β) (formula : FirstOrder α) :
    (formula.map f).map g = formula.map fun a => g (f a) := by
  induction formula with
  | atomic => rfl
  | negated _ ih => simp only [map, ih]
  | connected _ _ _ ihl ihr => simp only [map, ihl, ihr]
  | quantified _ _ _ ih => simp only [map, ih, List.map_map, Function.comp_def]

/-- The notes of the result are the replaced notes. -/
theorem notes_map (f : α → β) (formula : FirstOrder α) :
    (formula.map f).notes = formula.notes.map f := by
  induction formula with
  | atomic => rfl
  | negated _ ih => simp only [map, notes, ih]
  | connected _ _ _ ihl ihr => simp only [map, notes, ihl, ihr, List.map_append]
  | quantified _ _ _ ih => simp only [map, notes, ih, List.map_append, List.map_map,
      Function.comp_def]

end FirstOrder

end Tptp
