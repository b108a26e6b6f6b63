import Tptp.Proofs.Progress.Step

/-!
# Plans of Parsers

How a parser is made of others, as data.

Whether reading comes to an end is a question about calls: which production calls which, and
at what place. A parser is a function and does not show its calls. A `Plan` does. It is the
text of a production, written with the combinators, in which other productions are called by
name. `Rules` assign to every name its parser and its plan, and demand that the parser does
what the plan says.

A plan at a place of a text is a `Stage`. While it is under way it enters other stages, which
are its parts or the plans of what it calls. `Plan.Enters` says which, with all that decides
about it: behind a step that is done it enters the next one, behind an alternative that failed
the other one, and a loop enters itself where a round is completed. There is no allowance in
it and no check that a round took a character; a loop that does not move on enters the same
stage again, for ever.

## Main definitions

* `Plan`, `Plan.run`: Plans, and what they do.
* `Rules`: Names with their parsers and plans.
* `Plan.Comes`: What a plan comes to.
* `Plan.Round`, `Plan.Enters`: What is entered on the way.
-/

namespace Tptp

namespace Reading

variable {α β : Type}

/-- How a parser is made of others, which are called by names from `C`. -/
inductive Plan (C : Type → Type 1) : Type → Type 1 where
  | pure {α : Type} (value : α) : Plan C α
  | step {α : Type} {takes : Bool} (p : Parser α) (hp : IsStep takes p) : Plan C α
  | layout : Plan C Unit
  | bind {α β : Type} (first : Plan C α) (next : α → Plan C β) : Plan C β
  | labeled {α : Type} (label : String) (inner : Plan C α) : Plan C α
  | orElse {α : Type} (first second : Plan C α) : Plan C α
  | look {α : Type} (test : Rest → Bool) (first second : Plan C α) : Plan C α
  | many {α : Type} (item : Plan C α) : Plan C (List α)
  | repeatWhile {α : Type} (inSight : Rest → Bool) (item : Plan C α) : Plan C (List α)
  | call {α : Type} (name : C α) : Plan C α

variable {C : Type → Type 1}

namespace Plan

instance : Monad (Plan C) where
  pure := Plan.pure
  bind := Plan.bind

instance : OrElse (Plan C α) where
  orElse p q := orElse p (q ())

/-- The parser of a plan, with the part of the allowance that is left for what it calls. -/
def run (parser : {α : Type} → C α → Nat → Parser α) (allowance : Nat) :
    {α : Type} → Plan C α → Parser α
  | _, .pure value => Pure.pure value
  | _, .step p _ => p
  | _, .layout => Parser.skipLayout
  | _, .bind first next => first.run parser allowance >>= fun value =>
      (next value).run parser allowance
  | _, .labeled label inner => Parser.labeled label (inner.run parser allowance)
  | _, .orElse first second =>
      first.run parser allowance <|> second.run parser allowance
  | _, .look test first second => fun rest =>
      if test rest then first.run parser allowance rest else second.run parser allowance rest
  | _, .many item => Parser.many (item.run parser allowance)
  | _, .repeatWhile inSight item => Parser.repeatWhile inSight (item.run parser allowance)
  | _, .call name => parser name allowance

end Plan

/-- One parser for every allowance does what another does, or it does so with one unit of the
    allowance less. -/
def Unfolds (p q : Nat → Parser α) : Prop :=
  (∀ n, p n = q n) ∨ p 0 = Parser.abort .tooDeep ∧ ∀ n, p (n + 1) = q n

/-- What the names stand for. -/
structure Rules (C : Type → Type 1) where
  /-- The parser of a name. -/
  parser : {α : Type} → C α → Nat → Parser α
  /-- How it is made of others. -/
  plan : {α : Type} → C α → Plan C α
  /-- The parser does what the plan says. -/
  unfolds : ∀ {α : Type} (name : C α), Unfolds (parser name) fun n => (plan name).run parser n

/-- A plan at a place. -/
structure Stage (C : Type → Type 1) where
  /-- What the values of the plan are. -/
  {Value : Type}
  /-- The plan. -/
  plan : Plan C Value
  /-- The place. -/
  rest : Rest

namespace Plan

variable (R : Rules C)

/-- What a plan comes to at a place, with some allowance. -/
def Comes (plan : Plan C α) (rest : Rest) (outcome : Outcome α) : Prop :=
  ∃ n, (plan.run R.parser n rest).outcome = outcome

/-- The plan is a loop, and a round of it that is completed leads from one place to
    another. -/
def Round : Plan C α → Rest → Rest → Prop
  | .layout, rest, next => Parser.layoutRound? rest = some next
  | .many item, rest, next => ∃ value, item.Comes R rest (.done value next)
  | .repeatWhile inSight item, rest, next =>
      inSight rest = true ∧ ∃ value, item.Comes R rest (.done value next)
  | _, _, _ => False

/-- What a plan enters at a place while it is under way. -/
def Enters : Plan C α → Rest → Stage C → Prop
  | .pure _, _, _ => False
  | .step _ _, _, _ => False
  | .layout, rest, stage =>
      ∃ after, (layout : Plan C Unit).Round R rest after ∧ stage = ⟨.layout, after⟩
  | .bind first next, rest, stage =>
      stage = ⟨first, rest⟩ ∨
        ∃ value after, first.Comes R rest (.done value after) ∧ stage = ⟨next value, after⟩
  | .labeled _ inner, rest, stage => stage = ⟨inner, rest⟩
  | .orElse first second, rest, stage =>
      stage = ⟨first, rest⟩ ∨
        (∃ failure, first.Comes R rest (.failed failure)) ∧ stage = ⟨second, rest⟩
  | .look test first second, rest, stage =>
      stage = ⟨if test rest then first else second, rest⟩
  | .many item, rest, stage =>
      stage = ⟨item, rest⟩ ∨
        ∃ after, item.many.Round R rest after ∧ stage = ⟨item.many, after⟩
  | .repeatWhile inSight item, rest, stage =>
      inSight rest = true ∧ stage = ⟨item, rest⟩ ∨
        ∃ after, (item.repeatWhile inSight).Round R rest after ∧
          stage = ⟨item.repeatWhile inSight, after⟩
  | .call name, rest, stage => stage = ⟨R.plan name, rest⟩

end Plan

/-- The second stage is entered while the first one is under way. -/
def Stage.Enters (R : Rules C) (stage inner : Stage C) : Prop :=
  stage.plan.Enters R stage.rest inner

end Reading

end Tptp
