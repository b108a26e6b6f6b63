import Tptp.Proofs.Progress.Reentry
import Tptp.Proofs.Reasons

/-!
# Where the Allowance Ends

Reading that is given up for nesting is given up at a stage.

A result does not tell where the allowance came to an end, but the plan does. A plan that gives
up for nesting either is a call for which no unit is left, or it has entered a stage that gives
up for nesting. There are only so many stages to be entered, so following them leads to such a
call.

## Main definitions

* `Stage.GivesUp`: A stage that gives up for nesting, with some allowance.
* `Stage.Exhausted`: A call for which no unit of the allowance is left.

## Theorems

* `Stage.Descends.exhausted_or_enters`: The call is here, or it is further in.
* `Stage.Descends.exists_exhausted`: Following the stages leads to the call.
-/

namespace Tptp

namespace Reading

open Relation

variable {C : Type → Type 1}

/-- The stage gives up for nesting, with some allowance. -/
def Stage.GivesUp (R : Rules C) (stage : Stage C) : Prop :=
  stage.plan.Comes R stage.rest (.aborted .tooDeep)

/-- The stage is a call for which no unit of the allowance is left. -/
inductive Stage.Exhausted (R : Rules C) : Stage C → Prop where
  | call {α : Type} {name : C α} (rest : Rest) (h : R.parser name 0 = Parser.abort .tooDeep) :
      Exhausted R ⟨.call name, rest⟩

namespace Stage.Descends

variable {K : Ranking C} {R : Rules C} {stage : Stage C}

/-- A stage that gives up for nesting is a call for which nothing is left, or it has entered a
    stage that gives up for nesting. There is one case for each constructor of plans. -/
theorem exhausted_or_enters (h : stage.Descends K) (hdeep : stage.GivesUp R) :
    stage.Exhausted R ∨ ∃ inner, stage.Enters R inner ∧ inner.GivesUp R := by
  rcases stage with ⟨plan, rest⟩
  rcases hdeep with ⟨n, hn⟩
  cases plan with
  | pure value => cases hn
  | step p hp => exact absurd hn (hp rest h.1).ne_tooDeep
  | layout => exact absurd rfl (GivesUpOnly.skipLayout (E := (· ≠ .tooDeep)).reason hn)
  | bind first next =>
      rcases Parser.bind_aborted hn with hfirst | ⟨value, after, hfirst, hnext⟩
      · exact .inr ⟨⟨first, rest⟩, .inl rfl, n, hfirst⟩
      · exact .inr ⟨⟨next value, after⟩, .inr ⟨value, after, ⟨n, hfirst⟩, rfl⟩, n, hnext⟩
  | labeled label inner =>
      exact .inr ⟨⟨inner, rest⟩, rfl, n, Parser.labeled_aborted hn⟩
  | orElse first second =>
      rw [Plan.run, Parser.outcome_orElse] at hn
      rcases hfirst : (first.run R.parser n rest).outcome with ⟨value, after⟩ | failure | reason
      · rw [hfirst] at hn
        cases hn
      · rw [hfirst] at hn
        exact .inr ⟨⟨second, rest⟩, .inr ⟨⟨failure, n, hfirst⟩, rfl⟩, n, hn⟩
      · rw [hfirst] at hn
        exact .inr ⟨⟨first, rest⟩, .inl rfl, n, hfirst.trans hn⟩
  | look test first second =>
      refine .inr ⟨⟨if test rest then first else second, rest⟩, rfl, n, ?_⟩
      by_cases htest : test rest = true
      · simp only [Plan.run, if_pos htest] at hn ⊢
        exact hn
      · simp only [Plan.run, if_neg htest] at hn ⊢
        exact hn
  | many item =>
      rcases Parser.many_aborted hn with hitem | ⟨value, after, hitem, hmore⟩
      · exact .inr ⟨⟨item, rest⟩, .inl rfl, n, hitem⟩
      · exact .inr ⟨⟨item.many, after⟩, .inr ⟨after, ⟨value, n, hitem⟩, rfl⟩, n, hmore⟩
  | repeatWhile inSight item =>
      rcases Parser.repeatWhile_aborted hn with ⟨hsight, hitem | ⟨value, after, hitem, hmore⟩⟩
      · exact .inr ⟨⟨item, rest⟩, .inl ⟨hsight, rfl⟩, n, hitem⟩
      · exact .inr ⟨⟨item.repeatWhile inSight, after⟩,
          .inr ⟨after, ⟨hsight, value, n, hitem⟩, rfl⟩, n, hmore⟩
  | call name =>
      rcases R.unfolds name with heq | ⟨hzero, hsucc⟩
      · refine .inr ⟨⟨R.plan name, rest⟩, rfl, n, ?_⟩
        rw [Plan.run, heq] at hn
        exact hn
      · cases n with
        | zero => exact .inl (.call rest hzero)
        | succ n =>
            refine .inr ⟨⟨R.plan name, rest⟩, rfl, n, ?_⟩
            rw [Plan.run, hsucc] at hn
            exact hn

/-- Following the stages that give up for nesting leads to a call for which nothing is left. -/
theorem exists_exhausted (hK : Plan.Ranked R K) (h : stage.Descends K) (hdeep : stage.GivesUp R) :
    ∃ inner, ReflTransGen (Stage.Enters R) stage inner ∧ inner.Exhausted R := by
  have haccessible : Acc (fun inner outer => Stage.Enters R outer inner) stage :=
    (h.terminates hK).accessible
  induction haccessible with
  | intro stage _ ih =>
      rcases h.exhausted_or_enters hdeep with hhere | ⟨next, henters, hnext⟩
      · exact ⟨stage, .refl, hhere⟩
      · rcases ih next henters (h.enters hK henters).1 hnext with ⟨inner, hreaches, hinner⟩
        exact ⟨inner, .head henters hreaches, hinner⟩

end Stage.Descends

end Reading

end Tptp
