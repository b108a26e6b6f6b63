import Tptp.Formula.Reassociation

/-!
# Regrouping by Rotation

Chains grouped to the left from the outside in.

`reassociate` goes by structure and joins chains that are regrouped already. The other way
starts at the top. It rotates a chain first: as long as the right operand is a chain of the
same connective, the first operand of that moves over to the left. Then it regroups both
operands that are left in the end. The left one is not a part of the formula, since the
rotation has built it, so nothing in the shape of the formula says that this comes to an
end.

It does, since a rotation makes nothing larger: the two operands that it leaves have the size
of the two that it found. And both ways come to the same.

## Main definitions

* `FirstOrder.rotate`: Moves operands of a chain over to the left.
* `FirstOrder.Regroups`: What comes of a formula by rotation, call by call.

## Theorems

* `FirstOrder.graft_assoc`: Three chains are joined in either order.
* `FirstOrder.sizeOf_rotate`: A rotation keeps the size of both operands together.
* `FirstOrder.reassociate_connected`: Rotating first makes no difference.
* `FirstOrder.regroups_iff`: Rotation ends, with the formula grouped to the left.
-/

namespace Tptp

namespace FirstOrder

variable {α : Type}

/-- Joining formulas gives a chain. -/
theorem isChain_graft (c : Connective) (left right : FirstOrder α) :
    (graft c left right).IsChain c := by
  cases right with
  | connected first inner last =>
      rw [graft]
      split
      · rfl
      · rfl
  | atomic => rfl
  | negated => rfl
  | quantified => rfl

/-- A formula that is no chain is joined as it is. -/
theorem graft_of_not_isChain {c : Connective} {right : FirstOrder α} (h : ¬ right.IsChain c)
    (left : FirstOrder α) : graft c left right = .connected left c right := by
  cases right with
  | connected first inner last => exact if_neg h
  | atomic => rfl
  | negated => rfl
  | quantified => rfl

/-- A chain is joined operand by operand. -/
theorem graft_connected (c : Connective) (left first last : FirstOrder α) :
    graft c left (.connected first c last) = .connected (graft c left first) c last :=
  if_pos rfl

/-- Three chains are joined in either order. -/
theorem graft_assoc (c : Connective) (a b d : FirstOrder α) :
    graft c a (graft c b d) = graft c (graft c a b) d := by
  -- Only the chain at the right end is taken apart.
  have hlast : ∀ {d : FirstOrder α}, ¬ d.IsChain c →
      graft c a (graft c b d) = graft c (graft c a b) d := fun hd => by
    rw [graft_of_not_isChain hd, graft_of_not_isChain hd, graft_connected]
  induction d with
  | connected first inner last ih _ =>
      by_cases hinner : inner = c
      · subst hinner
        rw [graft_connected, graft_connected, graft_connected, ih]
      · exact hlast hinner
  | atomic => exact hlast id
  | negated => exact hlast id
  | quantified => exact hlast id

/-- Two chains in one are regrouped to the same formula, however they were grouped. -/
theorem reassociate_chain {c : Connective} (hc : c.isAssociative = true)
    (a b d : FirstOrder α) :
    (connected a c (.connected b c d)).reassociate =
      (connected (.connected a c b) c d).reassociate := by
  simp only [reassociate, if_pos hc, graft_assoc]

/-- Regrouping makes chains of chains only. -/
theorem isChain_reassociate {c : Connective} {formula : FirstOrder α} :
    formula.reassociate.IsChain c ↔ formula.IsChain c := by
  cases formula with
  | atomic => exact Iff.rfl
  | negated => exact Iff.rfl
  | quantified => exact Iff.rfl
  | connected left inner right =>
      rw [reassociate]
      split
      · constructor
        · intro h
          have hchain := isChain_graft inner left.reassociate right.reassociate
          generalize graft inner left.reassociate right.reassociate = joined at h hchain
          cases joined with
          | connected first other last => exact hchain.symm.trans h
          | atomic => exact absurd h id
          | negated => exact absurd h id
          | quantified => exact absurd h id
        · rintro rfl
          exact isChain_graft _ _ _
      · exact Iff.rfl

/-- Without a chain to the right, the operands are regrouped one by one. -/
theorem reassociate_of_not_chain {c : Connective} {right : FirstOrder α}
    (h : ¬ (right.IsChain c ∧ c.isAssociative = true)) (left : FirstOrder α) :
    (connected left c right).reassociate = .connected left.reassociate c right.reassociate := by
  rw [reassociate]
  split
  · next hc => exact graft_of_not_isChain (fun hr => h ⟨isChain_reassociate.mp hr, hc⟩) _
  · rfl

/-- The operands of a chain move over to the left, until the right one is no chain of the
    connective. What is left are the operands of the last connective. -/
def rotate (c : Connective) : FirstOrder α → FirstOrder α → FirstOrder α × FirstOrder α
  | left, .connected first inner last =>
    if inner = c ∧ c.isAssociative = true then rotate c (.connected left c first) last
    else (left, .connected first inner last)
  | left, right => (left, right)

/-- A rotation keeps the size of both operands together. -/
theorem sizeOf_rotate (c : Connective) (left right : FirstOrder α) :
    sizeOf (rotate c left right).1 + sizeOf (rotate c left right).2 =
      sizeOf left + sizeOf right := by
  fun_induction rotate c left right with
  | case1 left first inner last h ih =>
      rw [ih, h.1, connected.sizeOf_spec, connected.sizeOf_spec]
      omega
  | case2 => rfl
  | case3 => rfl

/-- Rotating first makes no difference: the operands that a rotation leaves are those of the
    regrouped formula, once they are regrouped. -/
theorem reassociate_connected (c : Connective) (left right : FirstOrder α) :
    (connected left c right).reassociate =
      .connected (rotate c left right).1.reassociate c (rotate c left right).2.reassociate := by
  fun_induction rotate c left right with
  | case1 left first inner last h ih =>
      rcases h with ⟨rfl, hc⟩
      rw [reassociate_chain hc, ih]
  | case2 left first inner last h =>
      have hright : ¬ ((connected first inner last).IsChain c ∧ c.isAssociative = true) := h
      exact reassociate_of_not_chain hright left
  | case3 left right hright =>
      refine reassociate_of_not_chain (fun h => ?_) left
      cases right with
      | connected first inner last => exact hright first inner last rfl
      | atomic => exact h.1
      | negated => exact h.1
      | quantified => exact h.1

/-- What comes of a formula by rotation. A derivation has one step for each call, and the
    calls for a connective are those for the operands that the rotation has left. -/
inductive Regroups : FirstOrder α → FirstOrder α → Prop where
  | atomic (literal : Literal) : Regroups (.atomic literal) (.atomic literal)
  | negated {formula result : FirstOrder α} (inner : Regroups formula result) :
      Regroups (.negated formula) (.negated result)
  | quantified {quantifier : Quantifier} {bound : List (Var × α)} {formula result : FirstOrder α}
      (inner : Regroups formula result) :
      Regroups (.quantified quantifier bound formula) (.quantified quantifier bound result)
  | connected {c : Connective} {left right left' right' : FirstOrder α}
      (first : Regroups (rotate c left right).1 left')
      (second : Regroups (rotate c left right).2 right') :
      Regroups (.connected left c right) (.connected left' c right')

/-- Rotation ends. The induction is on the size of the formula, since the operands that a
    rotation leaves are no parts of it. -/
theorem regroups_reassociate (formula : FirstOrder α) : Regroups formula formula.reassociate := by
  induction hsize : sizeOf formula using Nat.strongRecOn generalizing formula with
  | _ size ih =>
      subst hsize
      cases formula with
      | atomic literal => exact .atomic literal
      | negated inner =>
          refine .negated (ih _ ?_ inner rfl)
          rw [negated.sizeOf_spec]
          omega
      | quantified quantifier bound inner =>
          refine .quantified (ih _ ?_ inner rfl)
          rw [quantified.sizeOf_spec]
          omega
      | connected left c right =>
          have hsum := sizeOf_rotate c left right
          rw [reassociate_connected]
          refine .connected (ih _ ?_ _ rfl) (ih _ ?_ _ rfl)
          · rw [connected.sizeOf_spec]
            omega
          · rw [connected.sizeOf_spec]
            omega

/-- What comes of a formula by rotation is the formula grouped to the left, and nothing
    else. -/
theorem regroups_iff {formula result : FirstOrder α} :
    Regroups formula result ↔ result = formula.reassociate := by
  constructor
  · intro h
    induction h with
    | atomic => rfl
    | negated _ ih => rw [reassociate, ih]
    | quantified _ ih => rw [reassociate, ih]
    | connected _ _ ihl ihr => rw [reassociate_connected, ihl, ihr]
  · rintro rfl
    exact regroups_reassociate formula

end FirstOrder

end Tptp
