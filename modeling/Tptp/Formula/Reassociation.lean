import Tptp.Formula.FirstOrder

/-!
# Regrouping Chains

Formulas up to the grouping of conjunctions and disjunctions.

The grammar groups a chain `p & q & r` to the right. `reassociate` groups every
chain of an associative connective to the left, which is one shape for all
formulas that differ in grouping only.

A chain is regrouped from its two ends. Both operands are regrouped first; then
`graft` hangs the operands of the right chain, one after the other, onto the
left one. It goes by structure along the right operand, which after regrouping
is a chain that leans to the left.

## Main definitions

* `FirstOrder.graft`: Joins two regrouped operands into one regrouped chain.
* `FirstOrder.reassociate`: Groups every chain to the left.
* `FirstOrder.LeftGrouped`: No associative connective has a chain of its own to
  the right.

## Theorems

* `FirstOrder.leftGrouped_reassociate`: The result is grouped to the left.
* `FirstOrder.map_reassociate`: Replacing notes and regrouping commute.
-/

namespace Tptp

namespace FirstOrder

variable {α β : Type}

/-- Joins `left` and `right` by `connective`. If `right` is itself such a chain,
    grouped to the left, its operands are hung onto `left` one by one. -/
def graft (connective : Connective) (left : FirstOrder α) : FirstOrder α → FirstOrder α
  | .connected first inner last =>
    -- `last` is no chain of the connective, so only `first` can go on.
    if inner = connective then .connected (graft connective left first) connective last
    else .connected left connective (.connected first inner last)
  | right => .connected left connective right

/-- Groups every chain of an associative connective to the left. -/
def reassociate : FirstOrder α → FirstOrder α
  | .atomic literal => .atomic literal
  | .negated formula => .negated formula.reassociate
  | .connected left connective right =>
    if connective.isAssociative then graft connective left.reassociate right.reassociate
    else .connected left.reassociate connective right.reassociate
  | .quantified quantifier bound formula =>
    .quantified quantifier bound formula.reassociate

/-- The formula is a chain of the connective. -/
def IsChain (connective : Connective) : FirstOrder α → Prop
  | .connected _ inner _ => inner = connective
  | _ => False

/-- No associative connective has a chain of its own to the right. -/
def LeftGrouped : FirstOrder α → Prop
  | .atomic _ => True
  | .negated formula => formula.LeftGrouped
  | .connected left connective right =>
    left.LeftGrouped ∧ right.LeftGrouped ∧
      (connective.isAssociative = true → ¬ right.IsChain connective)
  | .quantified _ _ formula => formula.LeftGrouped

/-- Joining two formulas that are grouped to the left gives another one. -/
theorem leftGrouped_graft (connective : Connective) (left right : FirstOrder α)
    (hl : left.LeftGrouped) (hr : right.LeftGrouped) :
    (graft connective left right).LeftGrouped := by
  induction right with
  | connected first inner last ihf ihl =>
      simp only [graft]
      split
      · subst inner
        exact ⟨ihf hr.1, hr.2.1, hr.2.2⟩
      · next hne => exact ⟨hl, hr, fun _ hc => hne hc⟩
  | atomic => exact ⟨hl, hr, fun _ hc => hc⟩
  | negated => exact ⟨hl, hr, fun _ hc => hc⟩
  | quantified => exact ⟨hl, hr, fun _ hc => hc⟩

/-- The result of regrouping is grouped to the left. -/
theorem leftGrouped_reassociate (formula : FirstOrder α) : formula.reassociate.LeftGrouped := by
  induction formula with
  | atomic => trivial
  | negated _ ih => exact ih
  | connected _ connective _ ihl ihr =>
      simp only [reassociate]
      split
      · exact leftGrouped_graft _ _ _ ihl ihr
      · next hna => exact ⟨ihl, ihr, fun ha => absurd ha hna⟩
  | quantified _ _ _ ih => exact ih

/-- Joining two chains commutes with replacing notes. -/
theorem map_graft (f : α → β) (connective : Connective) (left right : FirstOrder α) :
    (graft connective left right).map f = graft connective (left.map f) (right.map f) := by
  induction right with
  | connected first inner last ihf ihl =>
      simp only [graft, map]
      split <;> simp only [map, ihf]
  | atomic => rfl
  | negated => rfl
  | quantified => rfl

/-- Replacing notes and regrouping commute. -/
theorem map_reassociate (f : α → β) (formula : FirstOrder α) :
    formula.reassociate.map f = (formula.map f).reassociate := by
  induction formula with
  | atomic => rfl
  | negated _ ih => simp only [reassociate, map, ih]
  | connected _ _ _ ihl ihr =>
      simp only [reassociate, map]
      split <;> simp only [map_graft, map, ihl, ihr]
  | quantified _ _ _ ih => simp only [reassociate, map, ih]

end FirstOrder

end Tptp
