import Tptp.Proofs.Outcome

/-!
# Parsers in a State

Outcomes of parsers that see more than what is left of the text.

The combinators are the same for all states that are at a place of a text. For the outcome the
state matters only as the place where the next step starts, together with the failures that
were dropped on the way there. So the equations of the combinators hold as they do for
parsers that see only what is left, except that the next state has to be named.

## Theorems

* `Parser.outcome_bind_state`, `Parser.outcome_orElse_state`: Steps and alternatives in a state.
* `Parser.bind_state_done`, `Parser.orElse_state_done`, `Parser.many_state_done`,
  `Parser.repeatWhile_state_done`: What a match is made of.
-/

namespace Tptp

namespace Reading

variable {σ α β : Type}

namespace Parser

/-- Only failures take a label. -/
theorem outcome_labeled_state (label : String) (p : ParserOn σ α) (state : σ) :
    (labeled label p state).outcome =
      match (p state).outcome with
      | .done value after => .done value after
      | .failed failure => .failed (failure.within label)
      | .aborted reason => .aborted reason := by
  rw [labeled]
  rcases p state with ⟨_ | _ | _, dropped⟩ <;> rfl

theorem labeled_state_done {label : String} {p : ParserOn σ α} {state : σ} {after : Rest}
    {value : α} (h : (labeled label p state).outcome = .done value after) :
    (p state).outcome = .done value after := by
  rw [outcome_labeled_state] at h
  rcases hp : (p state).outcome with _ | _ | _
  · rw [hp] at h
    exact h
  · exact absurd (hp ▸ h) nofun
  · exact absurd (hp ▸ h) nofun

variable [Place σ]

/-- The second step starts in the state behind the first one. -/
theorem outcome_bind_state (p : ParserOn σ α) (next : α → ParserOn σ β) (state : σ) :
    ((p >>= next) state).outcome =
      match p state with
      | ⟨.done a middle, dropped⟩ => (next a (Place.moveTo state middle dropped)).outcome
      | ⟨.failed failure, _⟩ => .failed failure
      | ⟨.aborted reason, _⟩ => .aborted reason := by
  rw [bind_state]
  rcases p state with ⟨_ | _ | _, dropped⟩ <;> rfl

/-- The second alternative starts where the first one did, after its failure. -/
theorem outcome_orElse_state (p q : ParserOn σ α) (state : σ) :
    ((p <|> q) state).outcome =
      match p state with
      | ⟨.done value after, _⟩ => .done value after
      | ⟨.failed failure, dropped⟩ =>
        (q (Place.moveTo state (Place.rest state) (Failure.later dropped (some failure)))).outcome
      | ⟨.aborted reason, _⟩ => .aborted reason := by
  change (orElse p q state).outcome = _
  rw [orElse]
  rcases p state with ⟨_ | _ | _, dropped⟩ <;> rfl

/-- Two steps match if one after the other does. -/
theorem bind_state_done {p : ParserOn σ α} {next : α → ParserOn σ β} {state : σ} {after : Rest}
    {value : β} (h : ((p >>= next) state).outcome = .done value after) :
    ∃ a middle dropped, p state = ⟨.done a middle, dropped⟩ ∧
      (next a (Place.moveTo state middle dropped)).outcome = .done value after := by
  rw [outcome_bind_state] at h
  rcases hp : p state with ⟨⟨a, middle⟩ | _ | _, dropped⟩
  · rw [hp] at h
    exact ⟨a, middle, dropped, rfl, h⟩
  · exact absurd (hp ▸ h) nofun
  · exact absurd (hp ▸ h) nofun

/-- One of two alternatives matches. -/
theorem orElse_state_done {p q : ParserOn σ α} {state : σ} {after : Rest} {value : α}
    (h : ((p <|> q) state).outcome = .done value after) :
    (p state).outcome = .done value after ∨
      ∃ record, (q (Place.moveTo state (Place.rest state) record)).outcome = .done value after := by
  rw [outcome_orElse_state] at h
  rcases hp : p state with ⟨_ | _ | _, dropped⟩
  · rw [hp] at h
    exact .inl h
  · rw [hp] at h
    exact .inr ⟨_, h⟩
  · exact absurd (hp ▸ h) nofun

/-- A loop stops where it started, or behind an item; or it goes on from there. -/
theorem many_state_done {p : ParserOn σ α} {state : σ} {after : Rest} {values : List α}
    (h : (many p state).outcome = .done values after) :
    after = Place.rest state ∨ ∃ a middle dropped, p state = ⟨.done a middle, dropped⟩ ∧
      (after = middle ∨ middle.size < (Place.rest state).size ∧
        ∃ others, (many p (Place.moveTo state middle dropped)).outcome = .done others after) := by
  rw [many] at h
  rcases hp : p state with ⟨⟨a, middle⟩ | _ | _, dropped⟩
  · simp only [hp] at h
    refine .inr ⟨a, middle, dropped, rfl, ?_⟩
    split at h
    · next hlt =>
        rw [Result.outcome_cons] at h
        rcases Outcome.done_of_map h with ⟨others, hothers, -⟩
        exact .inr ⟨hlt, others, hothers⟩
    · exact .inl (Outcome.done.inj h).2.symm
  · simp only [hp] at h
    exact .inl (Outcome.done.inj h).2.symm
  · simp only [hp] at h
    cases h

/-- As for `many_state_done`, but a loop stops where no item is in sight. -/
theorem repeatWhile_state_done {inSight : Rest → Bool} {p : ParserOn σ α} {state : σ} {after : Rest}
    {values : List α} (h : (repeatWhile inSight p state).outcome = .done values after) :
    after = Place.rest state ∨ ∃ a middle dropped, p state = ⟨.done a middle, dropped⟩ ∧
      (after = middle ∨ middle.size < (Place.rest state).size ∧
        ∃ others, (repeatWhile inSight p (Place.moveTo state middle dropped)).outcome =
          .done others after) := by
  rw [repeatWhile] at h
  split at h
  · rcases hp : p state with ⟨⟨a, middle⟩ | _ | _, dropped⟩
    · simp only [hp] at h
      refine .inr ⟨a, middle, dropped, rfl, ?_⟩
      split at h
      · next hlt =>
          rw [Result.outcome_cons] at h
          rcases Outcome.done_of_map h with ⟨others, hothers, -⟩
          exact .inr ⟨hlt, others, hothers⟩
      · exact .inl (Outcome.done.inj h).2.symm
    · simp only [hp] at h
      cases h
    · simp only [hp] at h
      cases h
  · exact .inl (Outcome.done.inj h).2.symm

end Parser

end Reading

end Tptp
