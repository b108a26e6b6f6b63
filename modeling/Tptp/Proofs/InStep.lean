import Tptp.Proofs.Reads

/-!
# Two Runs in Step

A parser that is run on two texts at once.

Places of one text may correspond to places of another one: the second text has been
made from the first by a change that should not matter. A parser is in step at a place
if it ends alike at all the places that correspond to it: with one value and at places
that correspond again, with a failure in both, or given up for one reason. Places of
failures are left out, as they do not decide how reading goes on.

Combining parsers keeps them in step, and it does so for every correspondence. Only a
repetition asks for more than its items do, since it ends with an item that takes no
character; so the items have to take some in both texts, or in none.

## Main definitions

* `InStep`: Two outcomes that are alike.
* `InStepAt`: A parser ends alike at all places that correspond to a place.

## Theorems

* `InStepAt.bind`, `InStepAt.labeled`, `InStepAt.orElse`: By combinators.
* `InStepAt.many`, `InStepAt.repeatWhile`: Repetitions.
-/

namespace Tptp

namespace Reading

variable {α β : Type} {P : List Char → List Char → Prop}

/-- Two outcomes are alike, as to places that correspond. -/
inductive InStep (P : List Char → List Char → Prop) : Outcome α → Outcome α → Prop where
  | done {value : α} {left other : List Char} (h : P left other) :
      InStep P (.done value (.ofList left)) (.done value (.ofList other))
  | failed (failure other : Failure) : InStep P (.failed failure) (.failed other)
  | aborted (reason : Abort) : InStep P (.aborted reason) (.aborted reason)

/-- The parser ends alike at a place and at those that correspond to it. -/
def InStepAt (P : List Char → List Char → Prop) (p : Parser α) (text : List Char) : Prop :=
  ∀ ⦃other : List Char⦄, P text other →
    InStep P (p (.ofList text)).outcome (p (.ofList other)).outcome

/-- A function of the value changes nothing else. -/
theorem InStep.map (f : α → β) {outcome other : Outcome α} (h : InStep P outcome other) :
    InStep P (outcome.map f) (other.map f) := by
  cases h with
  | done h => exact .done h
  | failed failure other => exact .failed failure other
  | aborted reason => exact .aborted reason

/-- A loop goes on behind an item in both texts, if it does in one. -/
theorem InStep.more (loop : Parser (List α)) {value : α} {text long left behind : List Char}
    (hsize : (Rest.ofList behind).size < (Rest.ofList long).size ↔
      (Rest.ofList left).size < (Rest.ofList text).size) (hleft : P left behind)
    (hloop : left.length < text.length →
      InStep P (loop (.ofList left)).outcome (loop (.ofList behind)).outcome) :
    InStep P
      (if (Rest.ofList left).size < (Rest.ofList text).size then
        (loop (.ofList left)).outcome.map (value :: ·) else .done [value] (.ofList left))
      (if (Rest.ofList behind).size < (Rest.ofList long).size then
        (loop (.ofList behind)).outcome.map (value :: ·) else .done [value] (.ofList behind)) := by
  by_cases hlt : (Rest.ofList left).size < (Rest.ofList text).size
  · rw [if_pos hlt, if_pos (hsize.mpr hlt)]
    exact (hloop hlt).map _
  · rw [if_neg hlt, if_neg (mt hsize.mp hlt)]
    exact .done hleft

namespace InStepAt

variable {p q : Parser α} {text : List Char}

theorem pure (a : α) (text : List Char) : InStepAt P (pure a : Parser α) text :=
  fun _ hother => .done hother

theorem bind {next : α → Parser β} (hp : InStepAt P p text)
    (hnext : ∀ {a left}, (p (.ofList text)).outcome = .done a (.ofList left) →
      InStepAt P (next a) left) : InStepAt P (p >>= next) text := by
  intro other hother
  have hfirst := hp hother
  rw [Parser.outcome_bind, Parser.outcome_bind]
  generalize hresult : (p (.ofList text)).outcome = outcome at hfirst
  generalize (p (.ofList other)).outcome = outcome' at hfirst
  cases hfirst with
  | done hleft => exact hnext hresult hleft
  | failed failure other => exact .failed failure other
  | aborted reason => exact .aborted reason

theorem labeled (label : String) (hp : InStepAt P p text) :
    InStepAt P (Parser.labeled label p) text := by
  intro other hother
  have hfirst := hp hother
  rw [Parser.outcome_labeled, Parser.outcome_labeled]
  generalize (p (.ofList text)).outcome = outcome at hfirst
  generalize (p (.ofList other)).outcome = outcome' at hfirst
  cases hfirst with
  | done hleft => exact .done hleft
  | failed failure other => exact .failed _ _
  | aborted reason => exact .aborted reason

theorem orElse (hp : InStepAt P p text) (hq : InStepAt P q text) :
    InStepAt P (p <|> q) text := by
  intro other hother
  have hfirst := hp hother
  rw [Parser.outcome_orElse, Parser.outcome_orElse]
  generalize (p (.ofList text)).outcome = outcome at hfirst
  generalize (p (.ofList other)).outcome = outcome' at hfirst
  cases hfirst with
  | done hleft => exact .done hleft
  | failed => exact hq hother
  | aborted reason => exact .aborted reason

/-- Parsers that fail at a place and at those that correspond to it. -/
theorem of_failed (h : ∀ {other}, other = text ∨ P text other → Fails p (.ofList other)) :
    InStepAt P p text := by
  intro other hother
  rcases h (.inl rfl) with ⟨failure, hfailed⟩
  rcases h (.inr hother) with ⟨failure', hfailed'⟩
  rw [hfailed, hfailed']
  exact .failed failure failure'

section

variable {I : List Char → Prop}

/-- What is repeated is in step at places of some kind, which it leads to again, and it takes
    characters in both texts or in none. -/
theorem many (hp : ∀ ⦃text⦄, I text → InStepAt P p text)
    (hbehind : ∀ {text value left}, I text →
      (p (.ofList text)).outcome = .done value (.ofList left) → I left)
    (hsize : ∀ {text other value left behind}, P text other →
      (p (.ofList text)).outcome = .done value (.ofList left) → P left behind →
        ((Rest.ofList behind).size < (Rest.ofList other).size ↔
          (Rest.ofList left).size < (Rest.ofList text).size))
    (htext : I text) : InStepAt P (Parser.many p) text := by
  -- The induction is on the characters that are left, since every item that another one
  -- follows takes some.
  induction hlength : text.length using Nat.strongRecOn generalizing text with
  | _ length ih =>
      intro other hother
      have hitem := hp htext hother
      rw [Parser.outcome_many, Parser.outcome_many]
      generalize hresult : (p (.ofList text)).outcome = outcome at hitem
      generalize (p (.ofList other)).outcome = outcome' at hitem
      cases hitem with
      | @done value left behind hleft =>
          exact .more _ (hsize hother hresult hleft) hleft fun hlt =>
            ih _ (hlength ▸ hlt) (hbehind htext hresult) rfl hleft
      | failed => exact .done hother
      | aborted reason => exact .aborted reason

/-- As for `InStepAt.many`, where an item is in sight in both texts or in none. -/
theorem repeatWhile (inSight : Option Char → Bool)
    (hsight : ∀ {text other}, I text → P text other → inSight other.head? = inSight text.head?)
    (hp : ∀ ⦃text⦄, I text → InStepAt P p text)
    (hbehind : ∀ {text value left}, I text →
      (p (.ofList text)).outcome = .done value (.ofList left) → I left)
    (hsize : ∀ {text other value left behind}, P text other → inSight text.head? = true →
      (p (.ofList text)).outcome = .done value (.ofList left) → P left behind →
        ((Rest.ofList behind).size < (Rest.ofList other).size ↔
          (Rest.ofList left).size < (Rest.ofList text).size))
    (htext : I text) :
    InStepAt P (Parser.repeatWhile (fun rest => inSight rest.chars.head?) p) text := by
  induction hlength : text.length using Nat.strongRecOn generalizing text with
  | _ length ih =>
      intro other hother
      have hitem := hp htext hother
      rw [Parser.outcome_repeatWhile, Parser.outcome_repeatWhile, Rest.chars_ofList,
        Rest.chars_ofList, hsight htext hother]
      split
      · next hseen =>
          generalize hresult : (p (.ofList text)).outcome = outcome at hitem
          generalize (p (.ofList other)).outcome = outcome' at hitem
          cases hitem with
          | @done value left behind hleft =>
              exact .more _ (hsize hother hseen hresult hleft) hleft fun hlt =>
                ih _ (hlength ▸ hlt) (hbehind htext hresult) rfl hleft
          | failed failure other => exact .failed failure other
          | aborted reason => exact .aborted reason
      · exact .done hother

end

end InStepAt

end Reading

end Tptp
