import Tptp.Proofs.EntryPoint
import Tptp.Proofs.CommentLine.Leading

/-!
# Transcripts Are Read as Problems Are

What the comment lines in front of a transcript have to do with its entries.

These lines are gone through one by one before ordinary skipping sets in. The loop over
them takes blanks and line comments and knows nothing of block comments, so it may stop
in the middle of the layout in front of the first entry. Where it stops there is only
layout behind it, and skipping what is left of that comes to what skipping all of it
does. From there on transcripts and problems are read by one parser. What is left to
tell them apart is the label that a failure takes on its way out of the document, and a
label has no part in which failure is reported, nor in its place.

## Main definitions

* `Relabeled`: Results that are the same apart from labels and a function of the value.

## Theorems

* `Grammar.announcements_apply`: The lines of a summary are layout.
* `Grammar.transcript_apply`: A transcript behind its layout.
* `Relabeled.labeled`, `Relabeled.bind`: Where labels are put on.
* `Relabeled.readFromStart`: Whole texts.
* `Read.transcript_iff_problem`: Transcripts and problems.
-/

namespace Tptp

namespace Reading

variable {α β γ : Type}

/-- From two places at which a step comes to the same, so do the steps behind it. -/
theorem Parser.bind_congr {p : Parser α} {next : α → Parser β} {rest other : Rest}
    (h : p rest = p other) : (p >>= next) rest = (p >>= next) other := by
  rw [bind_apply, bind_apply, h]

end Reading

namespace Grammar

open Reading Parser

/-- The lines that a summary is read from are layout, and no failure is dropped on the
    way. -/
theorem announcements_apply (text : String) :
    ∃ left, announcements (.ofList text.toList) =
      ⟨.done (Read.announcements text) (.ofList left), none⟩ ∧ Skips text.toList left := by
  rcases Szs.exists_leading text.toList with ⟨lines, left, hleading⟩
  refine ⟨left, ?_, hleading.commentLines.skips⟩
  rw [Read.announcements_eq hleading]
  exact announcements_of_leading hleading

/-- A transcript is read as a document is, with the layout in front of its entries. -/
theorem transcript_apply (text : String) (allowance : Nat) :
    transcript allowance (.ofList text.toList) =
      labeled "tstp" (Transcript.mk (Read.announcements text) <$>
        (skipLayout >>= fun _ => entries allowance : Parser (List Entry)))
        (.ofList text.toList) := by
  rcases announcements_apply text with ⟨left, happly, hskips⟩
  have hinner : (announcements >>= fun szs => skipLayout >>= fun _ =>
      entries allowance >>= fun entries => pure ⟨szs, entries⟩ : Parser Transcript)
        (.ofList text.toList) =
      (Transcript.mk (Read.announcements text) <$>
        (skipLayout >>= fun _ => entries allowance : Parser (List Entry)))
          (.ofList text.toList) := by
    rw [bind_of_done happly, map_eq_bind]
    have hassoc := bind_assoc (skipLayout : Parser Unit) (fun _ => entries allowance)
      fun entries => pure (Transcript.mk (Read.announcements text) entries)
    refine Eq.trans ?_ (congrFun hassoc.symm _)
    exact bind_congr (skipLayout_eq_of_skips hskips).symm
  unfold transcript labeled
  rw [hinner]

end Grammar

namespace Reading

/-- A result is another one with a function of its value or, if it is a failure, with other
    labels. What was dropped is the same. -/
inductive Relabeled (f : α → β) : Result α → Result β → Prop where
  | done (value : α) (rest : Rest) (dropped : Option Failure) :
      Relabeled f ⟨.done value rest, dropped⟩ ⟨.done (f value) rest, dropped⟩
  | failed {failure other : Failure} (dropped : Option Failure) (h : other.left = failure.left) :
      Relabeled f ⟨.failed failure, dropped⟩ ⟨.failed other, dropped⟩
  | aborted (reason : Abort) (dropped : Option Failure) :
      Relabeled f ⟨.aborted reason, dropped⟩ ⟨.aborted reason, dropped⟩

namespace Relabeled

variable {f : α → β} {p : Parser α} {q : Parser β} {rest : Rest} {text : String}

theorem refl (result : Result α) : Relabeled id result result := by
  rcases result with ⟨⟨value, rest⟩ | failure | reason, dropped⟩
  · exact .done value rest dropped
  · exact .failed dropped rfl
  · exact .aborted reason dropped

theorem map (f : α → β) (p : Parser α) (rest : Rest) : Relabeled f (p rest) ((f <$> p) rest) := by
  rw [Parser.map_apply]
  rcases p rest with ⟨⟨value, rest⟩ | failure | reason, dropped⟩
  · exact .done value rest dropped
  · exact .failed dropped rfl
  · exact .aborted reason dropped

/-- A label leaves a failure where it is. -/
theorem labeled {result : Result α} (label : String) (h : Relabeled f result (q rest)) :
    Relabeled f result (Parser.labeled label q rest) := by
  unfold Parser.labeled
  generalize q rest = other at h
  cases h with
  | done value rest dropped => exact .done value rest dropped
  | failed dropped h => exact .failed dropped h
  | aborted reason dropped => exact .aborted reason dropped

theorem after {result : Result α} {other : Result β} (h : Relabeled f result other)
    (record : Option Failure) : Relabeled f (result.after record) (other.after record) := by
  cases h with
  | done value rest dropped => exact .done value rest _
  | failed dropped h => exact .failed _ h
  | aborted reason dropped => exact .aborted reason _

/-- Steps that are the same apart from labels come to the same apart from labels. -/
theorem bind {δ : Type} {g : γ → δ} {next : α → Parser γ} {next' : β → Parser δ}
    (h : Relabeled f (p rest) (q rest))
    (hnext : ∀ a after, Relabeled g (next a after) (next' (f a) after)) :
    Relabeled g ((p >>= next) rest) ((q >>= next') rest) := by
  rw [Parser.bind_apply, Parser.bind_apply]
  generalize p rest = result, q rest = other at h
  cases h with
  | done value after dropped => exact (hnext value after).after dropped
  | failed dropped h => exact .failed dropped h
  | aborted reason dropped => exact .aborted reason dropped

theorem whole (h : Relabeled f (p rest) (q rest)) :
    Relabeled f (Reading.whole p rest) (Reading.whole q rest) :=
  h.bind fun value _ => (refl (Parser.endOfInput _)).bind fun _ after => .done value after none

/-- The same failure or one at the same place is reported, whatever the labels. -/
theorem left_getD {failure other : Failure} (h : other.left = failure.left)
    (dropped : Option Failure) :
    ((Failure.later dropped (some other)).getD other).left =
      ((Failure.later dropped (some failure)).getD failure).left := by
  rcases dropped with _ | former
  · exact h
  · simp only [Failure.later, h]
    split
    · exact h
    · rfl

/-- What a text comes to for one parser it comes to for the other, with an error at the
    same position. -/
theorem readFromStart (h : Relabeled f (p (.ofList text.toList)) (q (.ofList text.toList))) :
    (∀ b, Reading.readFromStart q text = .ok b ↔
        ∃ a, Reading.readFromStart p text = .ok a ∧ b = f a) ∧
      (∀ position, (∃ e, Reading.readFromStart q text = .error (.mismatch e) ∧
          e.position = position) ↔
        ∃ e, Reading.readFromStart p text = .error (.mismatch e) ∧ e.position = position) ∧
      ∀ reason, Reading.readFromStart q text = .error (.aborted reason) ↔
        Reading.readFromStart p text = .error (.aborted reason) := by
  have hwhole := h.whole
  rw [readFromStart_eq, readFromStart_eq]
  generalize Reading.whole p (.ofList text.toList) = result,
    Reading.whole q (.ofList text.toList) = other at hwhole
  cases hwhole with
  | done value rest dropped =>
      simp only [Except.ok.injEq, exists_eq_left', reduceCtorEq, false_and, exists_false,
        implies_true, and_true, eq_comm]
  | @failed failure other dropped hleft =>
      simp only [reduceCtorEq, false_and, exists_false, implies_true, and_true,
        Except.error.injEq, ReadError.mismatch.injEq, exists_eq_left', Mismatch.ofFailure,
        Mismatch.ofPosition, left_getD hleft]
  | aborted reason dropped =>
      simp only [Except.error.injEq, reduceCtorEq, false_and, exists_false, implies_true, and_self]

end Relabeled

end Reading

open Reading

/-- Every text is read as a transcript exactly if it is read as a problem. The entries are
    the same, and the summary is what the leading comments announce. Where one of them is
    an error at a position so is the other, and so it is where reading is given up. The
    comment lines are layout as skipping has it. -/
theorem Read.transcript_iff_problem (text : String) :
    (∀ transcript, Read.transcript text = .ok transcript ↔
        ∃ problem, Read.problem text = .ok problem ∧
          transcript = ⟨Read.announcements text, problem.entries⟩) ∧
      (∀ position, (∃ e, Read.transcript text = .error (.mismatch e) ∧ e.position = position) ↔
        ∃ e, Read.problem text = .error (.mismatch e) ∧ e.position = position) ∧
      (∀ reason, Read.transcript text = .error (.aborted reason) ↔
        Read.problem text = .error (.aborted reason)) ∧
      ∃ left, Grammar.announcements (.ofList text.toList) =
          ⟨.done (Read.announcements text) (.ofList left), none⟩ ∧
        Skips text.toList left ∧
        Parser.skipLayout (.ofList left) = Parser.skipLayout (.ofList text.toList) := by
  -- Both are compared with the entries behind the layout, without a label.
  have htranscript : Relabeled (Transcript.mk (Read.announcements text))
      ((Parser.skipLayout >>= fun _ => Grammar.entries nestingAllowance) (.ofList text.toList))
      (Grammar.transcript nestingAllowance (.ofList text.toList)) := by
    rw [Grammar.transcript_apply]
    exact (Relabeled.map _ _ _).labeled _
  have hproblem : Relabeled Document.mk
      ((Parser.skipLayout >>= fun _ => Grammar.entries nestingAllowance) (.ofList text.toList))
      ((Parser.skipLayout >>= fun _ => Grammar.problem nestingAllowance) (.ofList text.toList)) :=
    (Relabeled.refl _).bind fun _ after => (Relabeled.map _ _ after).labeled _
  rcases htranscript.readFromStart with ⟨hok, hmismatch, haborted⟩
  rcases hproblem.readFromStart with ⟨hok', hmismatch', haborted'⟩
  rcases Grammar.announcements_apply text with ⟨left, happly, hskips⟩
  refine ⟨fun transcript => ?_, fun position => ?_, fun reason => ?_,
    left, happly, hskips, (skipLayout_eq_of_skips hskips).symm⟩
  · refine (hok transcript).trans ⟨?_, ?_⟩
    · rintro ⟨entries, hentries, rfl⟩
      exact ⟨⟨entries⟩, (hok' _).mpr ⟨entries, hentries, rfl⟩, rfl⟩
    · rintro ⟨problem, hproblem, rfl⟩
      rcases (hok' problem).mp hproblem with ⟨entries, hentries, rfl⟩
      exact ⟨entries, hentries, rfl⟩
  · exact (hmismatch position).trans (hmismatch' position).symm
  · exact (haborted reason).trans (haborted' reason).symm

end Tptp
