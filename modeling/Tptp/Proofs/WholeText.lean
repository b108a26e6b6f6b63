import Tptp.Proofs.Lexical.Layout
import Tptp.Reading.Session

/-!
# Whole Texts

What reading a whole text comes to, in terms of the parser alone.

Reading is a session of one step. For a parser that sees no session the step is
just the parser, followed by the test for the end of the text, so a text is read
as a value exactly if the parser matches all of it. The error is the furthest
failure, counting those that were dropped.

## Main definitions

* `whole`: A parser that has to reach the end of the text.

## Theorems

* `readFromStart_eq`: What reading comes to.
* `readFromStart_ok_iff`, `readFromStart_aborted_iff`: Values, and giving up.
* `whole_done`, `whole_of_done`: Nothing is left behind a whole text.
* `readFromStart_of_reads`: What a parser reads up to the end is read.
* `read_ok_iff`, `read_of_reads`, `read_ok_of_reads`: Values, where layout stands in front.
* `read_ok_of_allows`: What the allowance suffices for.
* `read_of_givesUp`: Texts that reading is given up for.
-/

namespace Tptp

namespace Reading

variable {α : Type}

/-- A parser that has to reach the end of the text. -/
def whole (p : Parser α) : Parser α := do
  let value ← p
  Parser.endOfInput
  return value

/-- What reading a whole text comes to. -/
theorem readFromStart_eq (p : Parser α) (text : String) :
    readFromStart p text =
      match whole p (.ofList text.toList) with
      | ⟨.done value _, _⟩ => .ok value
      | ⟨.failed failure, dropped⟩ =>
        .error (.mismatch (.ofFailure text.toList
          ((Failure.later dropped (some failure)).getD failure)))
      | ⟨.aborted reason, _⟩ => .error (.aborted reason) := by
  have hlift : Parser.lift p <* Parser.lift Parser.endOfInput =
      (Parser.lift (whole p) : ParserOn Session α) := by
    simp only [whole, Parser.lift_bind, Parser.lift_pure]
    rfl
  rw [readFromStart, readAll, hlift, Session.step]
  have happly : Parser.lift (whole p) (Session.start text.toList) =
      whole p (.ofList text.toList) := rfl
  rw [happly]
  rcases whole p (.ofList text.toList) with ⟨_ | failure | _, dropped⟩
  · rfl
  · rcases dropped with _ | former
    · rfl
    · simp only [Session.error, Place.moveTo, Session.start, Failure.none_later]
      rw [Failure.later]
      split <;> rfl
  · rfl

/-- A text is read as a value exactly if the parser matches all of it. -/
theorem readFromStart_ok_iff {p : Parser α} {text : String} {value : α} :
    readFromStart p text = .ok value ↔
      ∃ after, (whole p (.ofList text.toList)).outcome = .done value after := by
  rw [readFromStart_eq]
  rcases whole p (.ofList text.toList) with ⟨⟨found, rest⟩ | _ | _, dropped⟩
  · simp only [Except.ok.injEq, Outcome.done.injEq, exists_and_left, exists_eq', and_true]
  · simp only [reduceCtorEq, exists_false]
  · simp only [reduceCtorEq, exists_false]

/-- Reading is given up exactly if the parser gives up. -/
theorem readFromStart_aborted_iff {p : Parser α} {text : String} {reason : Abort} :
    readFromStart p text = .error (.aborted reason) ↔
      (whole p (.ofList text.toList)).outcome = .aborted reason := by
  rw [readFromStart_eq]
  rcases whole p (.ofList text.toList) with ⟨_ | _ | _, dropped⟩
  · simp only [reduceCtorEq]
  · simp only [Except.error.injEq, reduceCtorEq]
  · simp only [Except.error.injEq, ReadError.aborted.injEq, Outcome.aborted.injEq]

/-- The parser matches up to the end of the text, and nothing is left there. -/
theorem whole_done {p : Parser α} {rest after : Rest} {value : α}
    (h : (whole p rest).outcome = .done value after) :
    (p rest).outcome = .done value after ∧ after.chars = [] := by
  rcases Parser.bind_done h with ⟨a, middle, hp, hend⟩
  rcases Parser.bind_done hend with ⟨_, last, hlast, hpure⟩
  rw [Parser.outcome_pure, Outcome.done.injEq] at hpure
  rw [Parser.endOfInput] at hlast
  split at hlast
  · next hnil =>
      rw [Outcome.done.injEq] at hlast
      rw [← hpure.1, ← hpure.2, ← hlast.2]
      exact ⟨hp, List.isEmpty_iff.mp hnil⟩
  · exact absurd hlast (by simp only [Parser.outcome_fail, reduceCtorEq, not_false_eq_true])

/-- The end of the text is matched where nothing is left. -/
theorem whole_of_done {p : Parser α} {rest after : Rest} {value : α}
    (h : (p rest).outcome = .done value after) (hnil : after.chars = []) :
    (whole p rest).outcome = .done value after := by
  refine Parser.bind_outcome_eq_done_iff.mpr ⟨value, after, h, ?_⟩
  refine Parser.bind_outcome_eq_done_iff.mpr ⟨(), after, ?_, rfl⟩
  exact congrArg Result.outcome (if_pos (List.isEmpty_iff.mpr hnil))

/-- A text is read as a value if, behind the layout, the parser matches all of it. -/
theorem read_ok_iff {p : Parser α} {text : String} {value : α} :
    read p text = .ok value ↔
      ∃ after, ((Parser.skipLayout >>= fun _ => p) (.ofList text.toList)).outcome =
        .done value after ∧ after.chars = [] := by
  rw [read, readFromStart_ok_iff]
  constructor
  · rintro ⟨after, h⟩
    exact ⟨after, whole_done h⟩
  · rintro ⟨after, h, hnil⟩
    exact ⟨after, whole_of_done h hnil⟩

/-- What a parser reads up to the end of the text is read, unless it gives up. -/
theorem readFromStart_of_reads {E : Abort → Prop} {p : Parser α} {text : String} {value : α}
    (h : ReadsUnless E p text.toList value []) :
    readFromStart p text = .ok value ∨
      ∃ reason, E reason ∧ readFromStart p text = .error (.aborted reason) := by
  rcases h with hdone | ⟨reason, hreason, haborted⟩
  · exact .inl (readFromStart_ok_iff.mpr ⟨_, whole_of_done hdone rfl⟩)
  · refine .inr ⟨reason, hreason, readFromStart_aborted_iff.mpr ?_⟩
    rw [whole, Parser.outcome_bind, haborted]

/-- What a parser reads behind the layout in front of a text, up to its end, is read from the
    text. -/
theorem read_of_reads {E : Abort → Prop} {p : Parser α} {text : String} {start : List Char}
    {value : α} (hskips : Skips text.toList start) (hstart : Significant start)
    (h : ReadsUnless E p start value []) :
    read p text = .ok value ∨ ∃ reason, E reason ∧ read p text = .error (.aborted reason) :=
  readFromStart_of_reads ((reads_skipLayout hskips hstart).bind h)

/-- A whole text is read if the parser has no reason to give up. -/
theorem read_ok_of_reads {p : Parser α} {text : String} {start : List Char} {value : α}
    (hskips : Skips text.toList start) (hstart : Significant start)
    (h : ReadsUnless (fun _ => False) p start value []) : read p text = .ok value := by
  rcases read_of_reads hskips hstart h with hok | ⟨_, hnone, _⟩
  · exact hok
  · exact hnone.elim

/-- A whole text is read if the allowance suffices, and also if reading is not given up. -/
theorem read_ok_of_allows {depth n : Nat} {p : Parser α} {text : String} {start : List Char}
    {value : α} (hskips : Skips text.toList start) (hstart : Significant start)
    (h : ∀ {E}, Allows E depth n → ReadsUnless E p start value [])
    (hdepth : depth ≤ n ∨ read p text ≠ .error (.aborted .tooDeep)) : read p text = .ok value := by
  rcases hdepth with hle | hdeep
  · exact read_ok_of_reads hskips hstart (h (.inl hle))
  · rcases read_of_reads hskips hstart (h (E := (· = .tooDeep)) (.inr rfl)) with hok | ⟨_, rfl, h⟩
    · exact hok
    · exact absurd h hdeep

/-- A text is not read if the parser gives up behind the layout in front of it. -/
theorem read_of_givesUp {p : Parser α} {text : String} {start : List Char} {reason : Abort}
    (hskips : Skips text.toList start) (hstart : Significant start) (h : GivesUp reason p start) :
    read p text = .error (.aborted reason) :=
  readFromStart_aborted_iff.mpr (GivesUp.bind (.then (reads_skipLayout hskips hstart).done h))

/-- What is read has a value, and reading it was not given up. -/
theorem exists_ok_of_isOk (result : Except ReadError α) (h : result.isOk = true) :
    ∃ value, result = .ok value := by
  rcases result with _ | value
  · exact absurd h Bool.false_ne_true
  · exact ⟨value, rfl⟩

end Reading

end Tptp
