import Tptp.Reading.Bracket

/-!
# Outcomes of Combined Parsers

What a combined parser comes to, in terms of what its parts come to.

A parser that sees only the text to come drops failures and reports the furthest
of them, but what it drops never decides how it goes on. Most facts about the
grammar are about outcomes alone, and for these the record of failures is noise.
Here every combinator gets one equation for its outcome, without that record;
later layers cite the equations and open no combinator again.

The two loops stop for different reasons, one at a failure and the other when no
item is in sight. What they have in common is `Loop`: a series of matches, and
then an end, a failure or a giving up of the same parser. Facts about what a loop
has done need no more than that.

## Main definitions

* `Outcome.map`: A function of the value of an outcome.
* `Runs`: A parser matching again and again.
* `Loop`: A series of matches and how it ends.

## Theorems

* `outcome_bind`, `outcome_map`: Steps one after the other.
* `Outcome.done_of_map`, `Outcome.aborted_of_map`: Where a mapped outcome comes from.
* `outcome_labeled`: Labels are added to failures and to nothing else.
* `outcome_orElse`: The second alternative is for failures of the first.
* `outcome_many`, `outcome_repeatWhile`: Repetitions, unrolled once.
* `bind_done`, `map_done`, `labeled_done`, `orElse_done`: Where a match comes from.
* `bind_aborted`, `labeled_aborted`, `orElse_aborted`, `many_aborted`, `repeatWhile_aborted`:
  Where a parser gave up.
* `loop_many`, `loop_repeatWhile`: Both repetitions are loops.
* `Loop.runs`: A finished loop is a series of matches.
* `Loop.runs_aborted`: A loop that was given up is one up to the last item.
* `Loop.exists_done`: A loop of an item that always matches is finished.
-/

namespace Tptp

namespace Reading

variable {α β : Type}

/-- A function of the value of an outcome, if it has one. -/
def Outcome.map (f : α → β) : Outcome α → Outcome β
  | .done value rest => .done (f value) rest
  | .failed failure => .failed failure
  | .aborted reason => .aborted reason

/-- Only a match is mapped to one. -/
theorem Outcome.done_of_map {f : α → β} {outcome : Outcome α} {value : β} {after : Rest}
    (h : outcome.map f = .done value after) : ∃ a, outcome = .done a after ∧ f a = value := by
  cases outcome with
  | done a rest =>
      rw [Outcome.map, Outcome.done.injEq] at h
      exact ⟨a, congrArg _ h.2, h.1⟩
  | failed => cases h
  | aborted => cases h

/-- Only an outcome that gives up is mapped to one. -/
theorem Outcome.aborted_of_map {f : α → β} {outcome : Outcome α} {reason : Abort}
    (h : outcome.map f = .aborted reason) : outcome = .aborted reason := by
  cases outcome with
  | done => cases h
  | failed => cases h
  | aborted => exact congrArg Outcome.aborted (Outcome.aborted.inj h)

/-- A list in front of which a value is put is one with another outcome. -/
theorem Result.outcome_cons (value : α) (result : Result (List α)) :
    (result.cons value).outcome = result.outcome.map (value :: ·) := by
  rcases result with ⟨_ | _ | _, dropped⟩ <;> rfl

namespace Parser

@[simp] theorem outcome_pure (value : α) (rest : Rest) :
    ((pure value : Parser α) rest).outcome = .done value rest := rfl

@[simp] theorem outcome_fail (label : String) (rest : Rest) :
    ((fail label : Parser α) rest).outcome = .failed ⟨rest.left, [label]⟩ := rfl

@[simp] theorem outcome_abort (reason : Abort) (rest : Rest) :
    ((abort reason : Parser α) rest).outcome = .aborted reason := rfl

/-- The first step decides unless it is done. -/
theorem outcome_bind (p : Parser α) (next : α → Parser β) (rest : Rest) :
    ((p >>= next) rest).outcome =
      match (p rest).outcome with
      | .done value after => (next value after).outcome
      | .failed failure => .failed failure
      | .aborted reason => .aborted reason := by
  rw [bind_apply]
  rcases p rest with ⟨_ | _ | _, dropped⟩ <;> rfl

/-- A mapped parser is one followed by an empty step. -/
theorem map_eq_bind (f : α → β) (p : Parser α) :
    f <$> p = p >>= fun value => pure (f value) := rfl

/-- Only the value is mapped. -/
theorem outcome_map (f : α → β) (p : Parser α) (rest : Rest) :
    ((f <$> p) rest).outcome = (p rest).outcome.map f := by
  rw [map_eq_bind, outcome_bind]
  rcases (p rest).outcome with _ | _ | _ <;> rfl

/-- Only failures take a label. -/
theorem outcome_labeled (label : String) (p : Parser α) (rest : Rest) :
    (labeled label p rest).outcome =
      match (p rest).outcome with
      | .done value after => .done value after
      | .failed failure => .failed (failure.within label)
      | .aborted reason => .aborted reason := by
  rw [labeled]
  rcases p rest with ⟨_ | _ | _, dropped⟩ <;> rfl

/-- The second alternative is tried from the same place, and only if the first
    one failed. -/
theorem outcome_orElse (p q : Parser α) (rest : Rest) :
    ((p <|> q) rest).outcome =
      match (p rest).outcome with
      | .done value after => .done value after
      | .failed _ => (q rest).outcome
      | .aborted reason => .aborted reason := by
  change (orElse p q rest).outcome = _
  rw [orElse]
  rcases p rest with ⟨_ | _ | _, dropped⟩ <;> rfl

/-- What the next character decides. -/
theorem outcome_ifOpens (c : Char) (p q : Parser α) (rest : Rest) :
    (ifOpens c p q rest).outcome =
      if rest.opensWith c then (p rest).outcome else (q rest).outcome := by
  change (if rest.opensWith c then p rest else q rest).outcome = _
  split <;> rfl

/-- One more item, or the end of the repetition. An item that took no character is
    the last one. -/
theorem outcome_many (p : Parser α) (rest : Rest) :
    (many p rest).outcome =
      match (p rest).outcome with
      | .done value after =>
        if after.size < rest.size then (many p after).outcome.map (value :: ·)
        else .done [value] after
      | .failed _ => .done [] rest
      | .aborted reason => .aborted reason := by
  rw [many]
  rcases p rest with ⟨⟨value, after⟩ | _ | _, dropped⟩
  · change (if after.size < rest.size then _ else _ : Result _).outcome = _
    simp only
    split
    · exact Result.outcome_cons _ _
    · rfl
  · rfl
  · rfl

/-- As for `outcome_many`, but whether there is one more item is seen ahead. -/
theorem outcome_repeatWhile (inSight : Rest → Bool) (p : Parser α) (rest : Rest) :
    (repeatWhile inSight p rest).outcome =
      if inSight rest then
        match (p rest).outcome with
        | .done value after =>
          if after.size < rest.size then
            (repeatWhile inSight p after).outcome.map (value :: ·)
          else .done [value] after
        | .failed failure => .failed failure
        | .aborted reason => .aborted reason
      else .done [] rest := by
  rw [repeatWhile]
  change (if inSight rest then _ else _ : Result _).outcome = _
  split
  · rcases p rest with ⟨⟨value, after⟩ | _ | _, dropped⟩
    · change (if after.size < rest.size then _ else _ : Result _).outcome = _
      simp only
      split
      · exact Result.outcome_cons _ _
      · rfl
    · rfl
    · rfl
  · rfl

/-- A match of two steps is a match of each. -/
theorem bind_done {p : Parser α} {next : α → Parser β} {rest after : Rest} {value : β}
    (h : ((p >>= next) rest).outcome = .done value after) :
    ∃ a middle, (p rest).outcome = .done a middle ∧ (next a middle).outcome = .done value after :=
  bind_outcome_eq_done_iff.mp h

/-- A mapped match is a match. -/
theorem map_done {f : α → β} {p : Parser α} {rest after : Rest} {value : β}
    (h : ((f <$> p) rest).outcome = .done value after) :
    ∃ a, (p rest).outcome = .done a after ∧ f a = value := by
  rw [outcome_map] at h
  exact Outcome.done_of_map h

/-- A labeled match is a match. -/
theorem labeled_done {label : String} {p : Parser α} {rest after : Rest} {value : α}
    (h : (labeled label p rest).outcome = .done value after) :
    (p rest).outcome = .done value after := by
  rw [outcome_labeled] at h
  rcases hp : (p rest).outcome with _ | _ | _
  · rw [hp] at h
    exact h
  · rw [hp] at h
    exact absurd h (by simp only [reduceCtorEq, not_false_eq_true])
  · rw [hp] at h
    exact absurd h (by simp only [reduceCtorEq, not_false_eq_true])

/-- A match of two alternatives is one of the first, or one of the second where the
    first failed. -/
theorem orElse_done {p q : Parser α} {rest after : Rest} {value : α}
    (h : ((p <|> q) rest).outcome = .done value after) :
    (p rest).outcome = .done value after ∨
      (∃ failure, (p rest).outcome = .failed failure) ∧ (q rest).outcome = .done value after := by
  rw [outcome_orElse] at h
  rcases hp : (p rest).outcome with _ | failure | _
  · rw [hp] at h
    exact .inl h
  · rw [hp] at h
    exact .inr ⟨⟨failure, rfl⟩, h⟩
  · rw [hp] at h
    exact absurd h (by simp only [reduceCtorEq, not_false_eq_true])

/-- Two steps are given up by one of them. -/
theorem bind_aborted {p : Parser α} {next : α → Parser β} {rest : Rest} {reason : Abort}
    (h : ((p >>= next) rest).outcome = .aborted reason) :
    (p rest).outcome = .aborted reason ∨
      ∃ a middle, (p rest).outcome = .done a middle ∧
        (next a middle).outcome = .aborted reason := by
  rw [outcome_bind] at h
  rcases hp : (p rest).outcome with ⟨a, middle⟩ | _ | _
  · rw [hp] at h
    exact .inr ⟨a, middle, rfl, h⟩
  · rw [hp] at h
    exact absurd h (by simp only [reduceCtorEq, not_false_eq_true])
  · rw [hp] at h
    exact .inl (by rw [Outcome.aborted.inj h])

/-- A label is put on nothing that was given up. -/
theorem labeled_aborted {label : String} {p : Parser α} {rest : Rest} {reason : Abort}
    (h : (labeled label p rest).outcome = .aborted reason) :
    (p rest).outcome = .aborted reason := by
  rw [outcome_labeled] at h
  rcases hp : (p rest).outcome with _ | _ | _
  · rw [hp] at h
    exact absurd h (by simp only [reduceCtorEq, not_false_eq_true])
  · rw [hp] at h
    exact absurd h (by simp only [reduceCtorEq, not_false_eq_true])
  · rw [hp] at h
    exact h

/-- Two alternatives are given up by one of them; no alternative takes the place of
    one that gave up. -/
theorem orElse_aborted {p q : Parser α} {rest : Rest} {reason : Abort}
    (h : ((p <|> q) rest).outcome = .aborted reason) :
    (p rest).outcome = .aborted reason ∨ (q rest).outcome = .aborted reason := by
  rw [outcome_orElse] at h
  rcases hp : (p rest).outcome with _ | _ | _
  · rw [hp] at h
    exact absurd h (by simp only [reduceCtorEq, not_false_eq_true])
  · rw [hp] at h
    exact .inr h
  · rw [hp] at h
    exact .inl h

/-- A loop that gives up does so at its first item, or behind it. -/
theorem many_aborted {p : Parser α} {rest : Rest} {reason : Abort}
    (h : (many p rest).outcome = .aborted reason) :
    (p rest).outcome = .aborted reason ∨ ∃ value after, (p rest).outcome = .done value after ∧
      (many p after).outcome = .aborted reason := by
  rw [outcome_many] at h
  rcases hp : (p rest).outcome with ⟨value, after⟩ | _ | _
  · simp only [hp] at h
    split at h
    · exact .inr ⟨value, after, rfl, Outcome.aborted_of_map h⟩
    · cases h
  · rw [hp] at h
    cases h
  · rw [hp] at h
    exact .inl (congrArg Outcome.aborted (Outcome.aborted.inj h))

/-- As for `many_aborted`, but there was an item in sight. -/
theorem repeatWhile_aborted {inSight : Rest → Bool} {p : Parser α} {rest : Rest}
    {reason : Abort} (h : (repeatWhile inSight p rest).outcome = .aborted reason) :
    inSight rest = true ∧ ((p rest).outcome = .aborted reason ∨
      ∃ value after, (p rest).outcome = .done value after ∧
        (repeatWhile inSight p after).outcome = .aborted reason) := by
  rw [outcome_repeatWhile] at h
  by_cases hsight : inSight rest = true
  · rw [if_pos hsight] at h
    refine ⟨hsight, ?_⟩
    rcases hp : (p rest).outcome with ⟨value, after⟩ | _ | _
    · simp only [hp] at h
      split at h
      · exact .inr ⟨value, after, rfl, Outcome.aborted_of_map h⟩
      · cases h
    · rw [hp] at h
      cases h
    · rw [hp] at h
      exact .inl (congrArg Outcome.aborted (Outcome.aborted.inj h))
  · rw [if_neg hsight] at h
    cases h

/-- A parser that matches again and again, each time from where it stopped. -/
inductive Runs (p : Parser α) : Rest → List α → Rest → Prop where
  | nil (rest : Rest) : Runs p rest [] rest
  | cons {rest middle last : Rest} {value : α} {values : List α}
      (item : (p rest).outcome = .done value middle) (others : Runs p middle values last) :
      Runs p rest (value :: values) last

/-- A series of matches, and how it ends. It may end anywhere, and it does where the
    parser does not match. -/
inductive Loop (p : Parser α) : Rest → Outcome (List α) → Prop where
  | stop (rest : Rest) : Loop p rest (.done [] rest)
  | more {rest after : Rest} {value : α} {outcome : Outcome (List α)}
      (item : (p rest).outcome = .done value after) (others : Loop p after outcome) :
      Loop p rest (outcome.map (value :: ·))
  | failed {rest : Rest} {failure : Failure} (item : (p rest).outcome = .failed failure) :
      Loop p rest (.failed failure)
  | aborted {rest : Rest} {reason : Abort} (item : (p rest).outcome = .aborted reason) :
      Loop p rest (.aborted reason)

/-- A repetition that ends at a failure is a loop. -/
theorem loop_many (p : Parser α) (rest : Rest) : Loop p rest (many p rest).outcome := by
  -- Every item but the last one leaves fewer characters.
  induction hsize : rest.size using Nat.strongRecOn generalizing rest with
  | _ size ih =>
      rw [outcome_many]
      rcases hp : (p rest).outcome with ⟨value, after⟩ | _ | _
      · simp only
        split
        · next hlt => exact .more hp (ih _ (hsize ▸ hlt) after rfl)
        · exact .more hp (.stop after)
      · exact .stop rest
      · exact .aborted hp

/-- A repetition that looks ahead is a loop. -/
theorem loop_repeatWhile (inSight : Rest → Bool) (p : Parser α) (rest : Rest) :
    Loop p rest (repeatWhile inSight p rest).outcome := by
  induction hsize : rest.size using Nat.strongRecOn generalizing rest with
  | _ size ih =>
      rw [outcome_repeatWhile]
      split
      · rcases hp : (p rest).outcome with ⟨value, after⟩ | _ | _
        · simp only
          split
          · next hlt => exact .more hp (ih _ (hsize ▸ hlt) after rfl)
          · exact .more hp (.stop after)
        · exact .failed hp
        · exact .aborted hp
      · exact .stop rest

/-- A finished loop is a series of matches. -/
theorem Loop.runs {p : Parser α} {rest last : Rest} {values : List α}
    (h : Loop p rest (.done values last)) : Runs p rest values last := by
  generalize ho : Outcome.done values last = outcome at h
  induction h generalizing values last with
  | stop rest =>
      rw [Outcome.done.injEq] at ho
      rcases ho with ⟨rfl, rfl⟩
      exact .nil _
  | @more rest after value outcome item _ ih =>
      rcases outcome with ⟨others, last'⟩ | _ | _
      · simp only [Outcome.map, Outcome.done.injEq] at ho
        rcases ho with ⟨rfl, rfl⟩
        exact .cons item (ih rfl)
      · exact absurd ho (by simp only [Outcome.map, reduceCtorEq, not_false_eq_true])
      · exact absurd ho (by simp only [Outcome.map, reduceCtorEq, not_false_eq_true])
  | failed => exact absurd ho (by simp only [reduceCtorEq, not_false_eq_true])
  | aborted => exact absurd ho (by simp only [reduceCtorEq, not_false_eq_true])

/-- A loop that was given up is a series of matches up to the item that gave up. -/
theorem Loop.runs_aborted {p : Parser α} {rest : Rest} {reason : Abort}
    (h : Loop p rest (.aborted reason)) :
    ∃ values middle, Runs p rest values middle ∧ (p middle).outcome = .aborted reason := by
  generalize ho : (Outcome.aborted reason : Outcome (List α)) = outcome at h
  induction h with
  | stop => exact absurd ho (by simp only [reduceCtorEq, not_false_eq_true])
  | @more rest after value outcome item _ ih =>
      rcases outcome with _ | _ | _
      · exact absurd ho (by simp only [Outcome.map, reduceCtorEq, not_false_eq_true])
      · exact absurd ho (by simp only [Outcome.map, reduceCtorEq, not_false_eq_true])
      · simp only [Outcome.map] at ho
        rcases ih ho with ⟨values, middle, hruns, hitem⟩
        exact ⟨value :: values, middle, .cons item hruns, hitem⟩
  | failed => exact absurd ho (by simp only [reduceCtorEq, not_false_eq_true])
  | @aborted rest _ item =>
      rw [Outcome.aborted.injEq] at ho
      exact ⟨[], rest, .nil rest, ho ▸ item⟩

/-- A loop of an item that always matches comes to an end. -/
theorem Loop.exists_done {p : Parser α}
    (hp : ∀ rest, ∃ value after, (p rest).outcome = .done value after)
    {rest : Rest} {outcome : Outcome (List α)} (h : Loop p rest outcome) :
    ∃ values last, outcome = .done values last := by
  induction h with
  | stop rest => exact ⟨[], rest, rfl⟩
  | more item _ ih =>
      rcases ih with ⟨values, last, rfl⟩
      exact ⟨_, last, rfl⟩
  | @failed rest _ item =>
      rcases hp rest with ⟨value, after, hdone⟩
      exact absurd (hdone.symm.trans item) nofun
  | @aborted rest _ item =>
      rcases hp rest with ⟨value, after, hdone⟩
      exact absurd (hdone.symm.trans item) nofun

end Parser

end Reading

end Tptp
