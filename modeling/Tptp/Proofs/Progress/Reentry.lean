import Mathlib.Logic.Relation
import Tptp.Proofs.Progress.Descent

/-!
# No Way Back

What holds of all stages that are reached from one that descends.

A plan that descends enters only plans that do, at places ahead. So they all come to an end,
however deep they are, and from that it follows that no stage is entered again while it is
under way: the way from a stage to itself could be gone for ever. If a plan is entered once
more, then it is at another place, and all places are ahead, so a character has been taken.
The same goes for the rounds of a loop.

## Main definitions

* `Stage.Descends`: A stage in a text whose plan descends.
* `Stage.Progresses`: A stage that ends, and that goes on until then.

## Theorems

* `Stage.Descends.reaches`: Stages that are reached descend, and they are ahead.
* `not_transGen_self`: Where there is an end, there is no way back.
* `Stage.Descends.size_lt_of_transGen`: A plan is entered again only behind a character.
* `Stage.Descends.size_lt_of_round`: Every round of a loop takes a character.
* `Stage.Descends.progresses`: All of it together.
-/

namespace Tptp

namespace Reading

open Relation

variable {α : Type} {C : Type → Type 1}

/-- A stage in a text whose plan descends. -/
def Stage.Descends (K : Ranking C) (stage : Stage C) : Prop :=
  stage.rest.beyond = 0 ∧ ∃ limit takes, stage.plan.Descends K limit takes

/-- A stage that comes to an end and goes on until then. -/
structure Stage.Progresses (R : Rules C) (stage : Stage C) : Prop where
  /-- There are only so many stages to be entered on the way. -/
  accessible : Acc (fun inner outer => Stage.Enters R outer inner) stage
  /-- It has an outcome, and where it matches, the place is ahead. -/
  settles : ∃ outcome, Settles (fun n => stage.plan.run R.parser n) stage.rest outcome ∧
    outcome.MovesOn stage.rest false
  /-- Its plan is not entered again before a character is taken. -/
  size_lt_of_again : ∀ after, TransGen (Stage.Enters R) stage ⟨stage.plan, after⟩ →
    after.size < stage.rest.size
  /-- If it is a loop, a round takes a character. -/
  size_lt_of_round : ∀ after, stage.plan.Round R stage.rest after → after.size < stage.rest.size

/-- From where everything comes to an end no way leads back. -/
theorem not_transGen_self {σ : Type*} {r : σ → σ → Prop} {s : σ}
    (h : Acc (fun later earlier => r earlier later) s) : ¬ TransGen r s s := by
  induction h with
  | intro s _ ih =>
      intro hcycle
      rcases TransGen.head'_iff.mp hcycle with ⟨next, hfirst, hback⟩
      -- The next stage is on the same way round.
      exact ih next hfirst (TransGen.tail' hback hfirst)

namespace Stage.Descends

variable {K : Ranking C} {R : Rules C} {stage inner : Stage C} (hK : Plan.Ranked R K)

include hK

theorem terminates (h : stage.Descends K) : stage.plan.Terminates R stage.rest false := by
  rcases h with ⟨hin, limit, takes, hplan⟩
  exact (hplan.terminates hK hin).mono nofun

/-- What is entered descends, and it is ahead. -/
theorem enters (h : stage.Descends K) (hinner : stage.Enters R inner) :
    inner.Descends K ∧ stage.rest.Ahead inner.rest := by
  rcases stage with ⟨plan, rest⟩
  rcases h with ⟨hin, limit, takes, hplan⟩
  have hhere : ∀ {β : Type} {part : Plan C β} {limit : WithTop Nat} {takes : Bool},
      part.Descends K limit takes →
        Stage.Descends K ⟨part, rest⟩ ∧ rest.Ahead (Stage.mk part rest).rest :=
    fun hpart => ⟨⟨hin, _, _, hpart⟩, .refl rest⟩
  have hthere : ∀ {β : Type} {part : Plan C β} {limit : WithTop Nat} {takes : Bool} {after : Rest},
      rest.Ahead after → part.Descends K limit takes →
        Stage.Descends K ⟨part, after⟩ ∧ rest.Ahead (Stage.mk part after).rest :=
    fun hahead hpart => ⟨⟨hahead.beyond_eq.trans hin, _, _, hpart⟩, hahead⟩
  cases plan with
  | pure value => exact absurd hinner id
  | step p hp => exact absurd hinner id
  | layout =>
      rcases hinner with ⟨after, hround, rfl⟩
      exact hthere (layoutRound?_progress hin hround).1 hplan
  | bind first next =>
      rcases hplan with ⟨hfirst, hnext⟩ | ⟨hfirst, hnext⟩ <;>
        rcases hinner with rfl | ⟨value, after, hcomes, rfl⟩
      · exact hhere hfirst
      · exact hthere ((hfirst.terminates hK hin).of_comes hcomes).1 (hnext value)
      · exact hhere hfirst
      · exact hthere ((hfirst.terminates hK hin).of_comes hcomes).1 (hnext value)
  | labeled label part =>
      obtain rfl : inner = ⟨part, rest⟩ := hinner
      exact hhere hplan
  | orElse first second =>
      rcases hinner with rfl | ⟨-, rfl⟩
      · exact hhere hplan.1
      · exact hhere hplan.2
  | look test first second =>
      obtain rfl : inner = ⟨if test rest then first else second, rest⟩ := hinner
      split
      · exact hhere hplan.1
      · exact hhere hplan.2
  | many item =>
      rcases hinner with rfl | ⟨after, ⟨value, hcomes⟩, rfl⟩
      · exact hhere hplan.2
      · exact hthere ((hplan.2.terminates hK hin).of_comes hcomes).1 hplan
  | repeatWhile inSight item =>
      rcases hinner with ⟨-, rfl⟩ | ⟨after, ⟨-, value, hcomes⟩, rfl⟩
      · exact hhere hplan.2
      · exact hthere ((hplan.2.terminates hK hin).of_comes hcomes).1 hplan
  | call name =>
      obtain rfl : inner = ⟨R.plan name, rest⟩ := hinner
      exact hhere (hK name)

/-- What is reached by entering one stage after the other descends, and it is ahead. -/
theorem reaches (h : stage.Descends K) (hinner : ReflTransGen (Stage.Enters R) stage inner) :
    inner.Descends K ∧ stage.rest.Ahead inner.rest := by
  induction hinner with
  | refl => exact ⟨h, .refl _⟩
  | tail _ hlast ih =>
      rcases ih.1.enters hK hlast with ⟨hinner, hahead⟩
      exact ⟨hinner, ih.2.trans hahead⟩

/-- A plan that is entered again while it is under way is entered further on. -/
theorem size_lt_of_transGen (h : stage.Descends K) {after : Rest}
    (hagain : TransGen (Stage.Enters R) stage ⟨stage.plan, after⟩) :
    after.size < stage.rest.size := by
  have hahead : stage.rest.Ahead after := (h.reaches hK hagain.to_reflTransGen).2
  by_contra hle
  -- At the same place it would be the same stage.
  obtain rfl := hahead.eq_of_size_le (Nat.le_of_not_lt hle)
  exact not_transGen_self (h.terminates hK).accessible hagain

/-- Every round of a loop that is completed takes a character. -/
theorem size_lt_of_round (h : stage.Descends K) {after : Rest}
    (hround : stage.plan.Round R stage.rest after) : after.size < stage.rest.size := by
  rcases stage with ⟨plan, rest⟩
  have hagain : Stage.Enters R ⟨plan, rest⟩ ⟨plan, after⟩ := by
    cases plan with
    | layout => exact ⟨after, hround, rfl⟩
    | many item => exact .inr ⟨after, hround, rfl⟩
    | repeatWhile inSight item => exact .inr ⟨after, hround, rfl⟩
    | _ => exact absurd hround id
  exact h.size_lt_of_transGen hK (.single hagain)

theorem progresses (h : stage.Descends K) : stage.Progresses R where
  accessible := (h.terminates hK).accessible
  settles := (h.terminates hK).settles
  size_lt_of_again _ := h.size_lt_of_transGen hK
  size_lt_of_round _ := h.size_lt_of_round hK

end Stage.Descends

end Reading

end Tptp
