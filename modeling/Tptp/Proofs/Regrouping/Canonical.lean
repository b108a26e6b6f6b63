import Tptp.Proofs.Regrouping.Interpretation
import Tptp.Proofs.Regrouping.Rotation

/-!
# One Shape for All Groupings

Two formulas differ in grouping only if regrouping makes them the same.

`Regrouped` is the least relation that allows to shift the parentheses of a conjunction or a
disjunction of three, anywhere in a formula. Each shift is one that `reassociate` does not
see, and `reassociate` itself does nothing but shifts. So it picks one formula from all that
differ in grouping, and whatever a shift keeps is kept by `reassociate`, such as the truth
of a formula.

## Main definitions

* `FirstOrder.Regrouped`: Formulas that differ in grouping only.
* `FirstOrder.Part`: The parts of a formula.
* `FirstOrder.operands`: The operands of a chain from left to right.

## Theorems

* `FirstOrder.Regrouped.reassociate_eq`: Shifts are not seen.
* `FirstOrder.regrouped_reassociate`: Regrouping is a series of shifts.
* `FirstOrder.not_part_of_leftGrouped`: What has no place in a formula grouped to the left.
* `FirstOrder.operands_reassociate`: Operands keep their order.
* `FirstOrder.Regrouped.holds_iff`: Shifts keep the truth of a formula.
* `FirstOrder.reassociate_canonical`: Regrouping picks one formula from all that differ in
  grouping only.
-/

namespace Tptp

universe u

namespace FirstOrder

variable {α : Type}

/-- Formulas that differ only in the way in which conjunctions and disjunctions are
    grouped. -/
inductive Regrouped : FirstOrder α → FirstOrder α → Prop where
  | refl (f : FirstOrder α) : Regrouped f f
  | symm {f g : FirstOrder α} (h : Regrouped f g) : Regrouped g f
  | trans {f g k : FirstOrder α} (h : Regrouped f g) (h' : Regrouped g k) : Regrouped f k
  /-- The parentheses are shifted. -/
  | shift {c : Connective} (hc : c.isAssociative = true) (a b d : FirstOrder α) :
      Regrouped (.connected a c (.connected b c d)) (.connected (.connected a c b) c d)
  | negated {f g : FirstOrder α} (h : Regrouped f g) : Regrouped (.negated f) (.negated g)
  | connected {f g f' g' : FirstOrder α} (c : Connective) (h : Regrouped f g)
      (h' : Regrouped f' g') : Regrouped (.connected f c f') (.connected g c g')
  | quantified {f g : FirstOrder α} (quantifier : Quantifier) (bound : List (Var × α))
      (h : Regrouped f g) :
      Regrouped (.quantified quantifier bound f) (.quantified quantifier bound g)

/-- Formulas that differ in grouping only are regrouped to the same formula. -/
theorem Regrouped.reassociate_eq {f g : FirstOrder α} (h : Regrouped f g) :
    f.reassociate = g.reassociate := by
  induction h with
  | refl => rfl
  | symm _ ih => exact ih.symm
  | trans _ _ ih ih' => exact ih.trans ih'
  | shift hc a b d => exact reassociate_chain hc a b d
  | negated _ ih => rw [reassociate, reassociate, ih]
  | connected _ _ _ ih ih' => rw [reassociate, reassociate, ih, ih']
  | quantified _ _ _ ih => rw [reassociate, reassociate, ih]

/-- Joining chains is a series of shifts. -/
theorem regrouped_graft {c : Connective} (hc : c.isAssociative = true)
    (left right : FirstOrder α) : Regrouped (.connected left c right) (graft c left right) := by
  induction right with
  | connected first inner last ih _ =>
      by_cases hinner : inner = c
      · subst hinner
        rw [graft_connected]
        exact (Regrouped.shift hc left first last).trans (.connected inner ih (.refl last))
      · have hright : ¬ (FirstOrder.connected first inner last).IsChain c := hinner
        rw [graft_of_not_isChain hright]
        exact .refl _
  | atomic => exact .refl _
  | negated => exact .refl _
  | quantified => exact .refl _

/-- Regrouping is a series of shifts. -/
theorem regrouped_reassociate (f : FirstOrder α) : Regrouped f f.reassociate := by
  induction f with
  | atomic => exact .refl _
  | negated _ ih => exact ih.negated
  | connected left c right ihl ihr =>
      have hoperands := Regrouped.connected c ihl ihr
      rw [reassociate]
      split
      · next hc => exact hoperands.trans (regrouped_graft hc _ _)
      · exact hoperands
  | quantified _ _ _ ih => exact ih.quantified _ _

/-- The formula is a part of another one, possibly all of it. -/
inductive Part (f : FirstOrder α) : FirstOrder α → Prop where
  | whole : Part f f
  | negated {g : FirstOrder α} (h : Part f g) : Part f (.negated g)
  | left {g : FirstOrder α} (h : Part f g) (c : Connective) (right : FirstOrder α) :
      Part f (.connected g c right)
  | right {g : FirstOrder α} (left : FirstOrder α) (c : Connective) (h : Part f g) :
      Part f (.connected left c g)
  | quantified {g : FirstOrder α} (quantifier : Quantifier) (bound : List (Var × α))
      (h : Part f g) : Part f (.quantified quantifier bound g)

/-- The parts of a formula that is grouped to the left are so, too. -/
theorem Part.leftGrouped {f g : FirstOrder α} (h : Part f g) (hg : g.LeftGrouped) :
    f.LeftGrouped := by
  induction h with
  | whole => exact hg
  | negated _ ih => exact ih hg
  | left _ _ _ ih => exact ih hg.1
  | right _ _ _ ih => exact ih hg.2.1
  | quantified _ _ _ ih => exact ih hg

/-- In a formula that is grouped to the left, no associative connective has a chain of its
    own to the right. -/
theorem not_part_of_leftGrouped {f : FirstOrder α} (hf : f.LeftGrouped) :
    ¬ ∃ (c : Connective) (a b d : FirstOrder α), c.isAssociative = true ∧
      Part (.connected a c (.connected b c d)) f := by
  rintro ⟨c, a, b, d, hc, hpart⟩
  exact (hpart.leftGrouped hf).2.2 hc rfl

/-- The operands of a chain of the connective from left to right. What is no such chain is
    its only operand. -/
def operands (c : Connective) : FirstOrder α → List (FirstOrder α)
  | .connected left inner right =>
    if inner = c then operands c left ++ operands c right else [.connected left inner right]
  | formula => [formula]

theorem operands_connected (c : Connective) (left right : FirstOrder α) :
    operands c (.connected left c right) = operands c left ++ operands c right :=
  if_pos rfl

theorem operands_of_not_isChain {c : Connective} {f : FirstOrder α} (h : ¬ f.IsChain c) :
    operands c f = [f] := by
  cases f with
  | connected left inner right => exact if_neg h
  | atomic => rfl
  | negated => rfl
  | quantified => rfl

/-- A joined chain has the operands of both. -/
theorem operands_graft (c : Connective) (left right : FirstOrder α) :
    operands c (graft c left right) = operands c left ++ operands c right := by
  by_cases hright : right.IsChain c
  · induction right with
    | connected first inner last ih _ =>
        obtain rfl : inner = c := hright
        rw [graft_connected, operands_connected, operands_connected, ← List.append_assoc]
        by_cases hfirst : first.IsChain inner
        · rw [ih hfirst]
        · rw [graft_of_not_isChain hfirst, operands_connected]
    | atomic => exact absurd hright id
    | negated => exact absurd hright id
    | quantified => exact absurd hright id
  · rw [graft_of_not_isChain hright, operands_connected]

/-- The operands of a regrouped chain are those of the chain, in the same order, and each of
    them is regrouped. -/
theorem operands_reassociate (c : Connective) (f : FirstOrder α) :
    operands c f.reassociate = (operands c f).map reassociate := by
  by_cases hf : f.IsChain c
  · induction f with
    | connected left inner right ihl ihr =>
        obtain rfl : inner = c := hf
        -- An operand that is no chain of its own has been looked at already.
        have hoperand : ∀ {g : FirstOrder α}, (g.IsChain inner →
            operands inner g.reassociate = (operands inner g).map reassociate) →
            operands inner g.reassociate = (operands inner g).map reassociate := fun {g} hg => by
          by_cases hchain : g.IsChain inner
          · exact hg hchain
          · rw [operands_of_not_isChain hchain,
              operands_of_not_isChain (isChain_reassociate.not.mpr hchain), List.map_singleton]
        rw [operands_connected, List.map_append, ← hoperand ihl, ← hoperand ihr, reassociate]
        split
        · exact operands_graft _ _ _
        · exact operands_connected _ _ _
    | atomic => exact absurd hf id
    | negated => exact absurd hf id
    | quantified => exact absurd hf id
  · rw [operands_of_not_isChain hf, operands_of_not_isChain (isChain_reassociate.not.mpr hf),
      List.map_singleton]

/-- Formulas that differ in grouping only hold alike. -/
theorem Regrouped.holds_iff {f g : FirstOrder α} (h : Regrouped f g) (I : Interpretation.{u} α)
    (values : Var → I.Domain) : I.Holds f values ↔ I.Holds g values := by
  induction h generalizing values with
  | refl => exact Iff.rfl
  | symm _ ih => exact (ih values).symm
  | trans _ _ ih ih' => exact (ih values).trans (ih' values)
  | shift hc a b d => exact Connective.joins_assoc hc _ _ _
  | negated _ ih => exact not_congr (ih values)
  | connected c _ _ ih ih' =>
      simp only [Interpretation.Holds]
      rw [ih values, ih' values]
  | quantified quantifier bound _ ih =>
      simp only [Interpretation.Holds]
      rw [funext fun values => propext (ih values)]

/-- Regrouping picks one formula from all that differ in grouping only. It is grouped like
    the given one up to shifts, and no shift to the left is possible anywhere in it. A second
    time there is nothing left to do. The operands of each chain keep their order, and the
    formula its truth under every interpretation. Rotation comes to the same, and it ends. -/
theorem reassociate_canonical (f : FirstOrder α) :
    (∀ g : FirstOrder α, f.reassociate = g.reassociate ↔ Regrouped f g) ∧
      Regrouped f f.reassociate ∧
      (¬ ∃ (c : Connective) (a b d : FirstOrder α), c.isAssociative = true ∧
        Part (.connected a c (.connected b c d)) f.reassociate) ∧
      f.reassociate.reassociate = f.reassociate ∧
      (∀ c, operands c f.reassociate = (operands c f).map reassociate) ∧
      (∀ (I : Interpretation.{u} α) (values : Var → I.Domain),
        I.Holds f.reassociate values ↔ I.Holds f values) ∧
      ∀ result, Regroups f result ↔ result = f.reassociate := by
  have hself := regrouped_reassociate f
  refine ⟨fun g => ⟨fun h => ?_, Regrouped.reassociate_eq⟩, hself,
    not_part_of_leftGrouped (leftGrouped_reassociate f), hself.symm.reassociate_eq,
    fun c => operands_reassociate c f, fun I values => hself.symm.holds_iff I values,
    fun result => regroups_iff⟩
  have hg := (regrouped_reassociate g).symm
  rw [← h] at hg
  exact hself.trans hg

/-- Of a chain in the middle of a chain all operands come to the same level. -/
example (p q r s : Literal) :
    (connected (.atomic p) .conjunction (.connected (.connected (.atomic q) .conjunction
        (.atomic r)) .conjunction (.atomic s)) : FirstOrder α).reassociate =
      .connected (.connected (.connected (.atomic p) .conjunction (.atomic q)) .conjunction
        (.atomic r)) .conjunction (.atomic s) := rfl

end FirstOrder

end Tptp
