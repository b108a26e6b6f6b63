import Tptp.Proofs.Locality.Entry
import Tptp.Read

/-!
# Documents One After Another

A problem that is followed by another text, from the next line on.

The entries of the problem are read one by one. Up to the last one the added text does
not matter, and the last one is read as before. Whatever is read then is read from the
added text, as if it had been read by itself.

## Theorems

* `resumes_entries`, `resumes_problem`: Entries and problems in front of another text.
* `problem_append`: What reading two texts comes to, if the first one is a problem.
-/

namespace Tptp

namespace Reading

variable {α : Type}

/-- A series of matches ends with a match, unless there was none. -/
theorem Parser.Runs.exists_last {p : Parser α} {rest last : Rest} {values : List α}
    (h : Parser.Runs p rest values last) :
    values = [] ∧ rest = last ∨ ∃ others value middle, values = others ++ [value] ∧
      Parser.Runs p rest others middle ∧ (p middle).outcome = .done value last := by
  induction h with
  | nil rest => exact .inl ⟨rfl, rfl⟩
  | @cons rest middle last value values item _ ih =>
      rcases ih with ⟨rfl, rfl⟩ | ⟨others, found, before, rfl, hruns, hlast⟩
      · exact .inr ⟨[], value, rest, rfl, .nil rest, item⟩
      · exact .inr ⟨value :: others, found, before, rfl, .cons item hruns, hlast⟩

/-- Matches of a parser that stays on the path lead along it. -/
theorem Parser.Runs.path {p : Parser α} (hwithin : ∀ text, Within text (p (.ofList text)))
    {rest last : Rest} {values : List α} (h : Parser.Runs p rest values last)
    {text : List Char} (hrest : rest = .ofList text) :
    ∃ left, last = .ofList left ∧ Path text left := by
  induction h generalizing text with
  | nil => exact ⟨text, hrest, .here text⟩
  | cons item _ ih =>
      rw [hrest] at item
      rcases (hwithin text).path item with ⟨middle, rfl, hpath⟩
      rcases ih rfl with ⟨left, rfl, hothers⟩
      exact ⟨left, rfl, hpath.trans hothers⟩

/-- The place of the error is that of the failure to be reported. -/
theorem failsAt_of_mismatch {p : Parser α} {text : String} {error : Mismatch}
    (h : readFromStart p text = .error (.mismatch error)) :
    ∃ left, FailsAt left (whole p (.ofList text.toList)) ∧
      error.position = positionOf text.toList left := by
  rw [readFromStart_eq] at h
  rcases hwhole : whole p (.ofList text.toList) with ⟨_ | failure | _, dropped⟩
  · rw [hwhole] at h
    exact absurd h (by simp only [reduceCtorEq, not_false_eq_true])
  · rw [hwhole, Except.error.injEq, ReadError.mismatch.injEq] at h
    rcases hlater : Failure.later dropped (some failure) with _ | reported
    · rcases dropped with _ | former
      · exact absurd hlater (by simp only [Failure.later, reduceCtorEq, not_false_eq_true])
      · simp only [Failure.later] at hlater
        split at hlater
        · exact absurd hlater (by simp only [reduceCtorEq, not_false_eq_true])
        · exact absurd hlater (by simp only [reduceCtorEq, not_false_eq_true])
    · rw [hlater] at h
      exact ⟨reported.left, ⟨failure, dropped, reported, rfl, hlater, rfl⟩, h ▸ rfl⟩
  · rw [hwhole, Except.error.injEq] at h
    exact absurd h (by simp only [reduceCtorEq, not_false_eq_true])

theorem mismatch_of_failsAt {p : Parser α} {text : String} {left : Int}
    (h : FailsAt left (whole p (.ofList text.toList))) :
    ∃ error, readFromStart p text = .error (.mismatch error) ∧
      error.position = positionOf text.toList left := by
  rcases h with ⟨failure, dropped, reported, hwhole, hlater, rfl⟩
  rw [readFromStart_eq, hwhole]
  refine ⟨_, rfl, ?_⟩
  rw [hlater]
  rfl

end Reading

namespace Grammar

open Reading Parser

variable {allowance : Nat} {α : Type}

/-- An entry takes characters. -/
theorem length_lt_of_entry {text left : List Char} {value : Entry}
    (h : (entry allowance (.ofList text)).outcome = .done value (.ofList left)) :
    left.length < text.length := by
  rcases exists_stop h with ⟨gap, hpath, hgap⟩
  rcases within_skipLayout.path hgap with ⟨last, hlast, hskips⟩
  rw [← Rest.ofList_inj hlast] at hskips
  have hle := hpath.length_le
  have hle' := hskips.length_le
  rw [List.length_cons] at hle
  omega

/-- The entries of a text are followed by those of the text behind. -/
theorem resumes_entries {rest : Rest} {last : List Char} {values : List Entry} {value : Entry}
    (hruns : Runs (entry allowance) rest values (.ofList last))
    (hlast : (entry allowance (.ofList last)).outcome = .done value (.ofList []))
    {text : List Char} (hrest : rest = .ofList text) (later : List Char) :
    Resumes later (fun others => values ++ value :: others) (entries allowance)
      (entries allowance (.ofList (text ++ '\n' :: later))) := by
  -- With another line behind it no text is at its end.
  have hsight : ∀ text : List Char, (!(Rest.ofList (text ++ '\n' :: later)).atEnd) = true := by
    intro text
    rcases text with _ | ⟨c, text⟩ <;> rfl
  have hwithin := (composed_entry allowance).within
  rcases exists_stop hlast with ⟨gap, hstop, hgap⟩
  generalize hend : Rest.ofList last = before at hruns
  induction hruns generalizing text with
  | nil rest =>
      rw [← Rest.ofList_inj (hend.trans hrest)]
      refine (resumes_entry hlast later).repeatWhile (hsight last) ?_
      rw [Rest.size_ofList, List.length_append, List.length_cons]
      omega
  | @cons rest middle _ found others item hothers ih =>
      rw [hrest] at item
      rcases (hwithin text).path item with ⟨left, rfl, hpath⟩
      subst hend
      rcases hothers.path hwithin rfl with ⟨_, hleft, hrun⟩
      rw [← Rest.ofList_inj hleft] at hrun
      -- The entries behind this one lead up to the last full stop, so this one is not the last.
      have hnext := hrun.trans hstop
      have hline : ('\n' :: later).head? = some '\n' := rfl
      have hagrees := agrees_entry (hpath.trans hnext) hgap hline item
        (hnext.ne_nil (fullStop_of_skipLayout hgap))
      have hearly := (hwithin text).early later
      have hless := (size_append_lt left text ('\n' :: later)).mpr (length_lt_of_entry item)
      -- One turn of the loop is as it was, and the loop goes on in the longer text.
      have hstep : entries allowance (.ofList (text ++ '\n' :: later)) =
          ((entries allowance (.ofList (left ++ '\n' :: later))).after
            ((entry allowance (.ofList text)).dropped.map
              (Failure.shift ('\n' :: later).length))).cons found := by
        rw [entries, repeatWhile_apply, if_pos (hsight text), hagrees.stable]
        simp only [Result.extend, item, Outcome.extend, Rest.chars_ofList, if_pos hless]
      rw [hstep]
      exact ((ih rfl rfl).after hearly).cons found

/-- A problem is followed by the entries of the text behind. -/
theorem resumes_problem {text : List Char} {problem : Problem} {after : Rest}
    (h : (whole (skipLayout *> Grammar.problem allowance) (.ofList text)).outcome =
      .done problem after) (later : List Char) :
    Resumes later problem.append (whole (Grammar.problem allowance))
      (whole (skipLayout *> Grammar.problem allowance) (.ofList (text ++ '\n' :: later))) := by
  rcases whole_done h with ⟨hdone, hnil⟩
  rcases bind_done (p := skipLayout) hdone with ⟨_, start, hskip, hproblem⟩
  rcases within_skipLayout.path hskip with ⟨first, rfl, hfirst⟩
  rcases ((composed_problem allowance).within first).path hproblem with ⟨left, rfl, -⟩
  rw [show left = [] from hnil] at hproblem
  rcases map_done (labeled_done hproblem) with ⟨values, hentries, rfl⟩
  have hloop := loop_repeatWhile (fun rest => !rest.atEnd) (entry allowance) (.ofList first)
  change (repeatWhile (fun rest => !rest.atEnd) (entry allowance) (.ofList first)).outcome = _ at hentries
  rw [hentries] at hloop
  refine Resumes.whole ?_
  rcases hloop.runs.exists_last with ⟨rfl, hempty⟩ | ⟨others, value, middle, rfl, hruns, hlast⟩
  -- A text without entries is layout.
  · rw [Rest.ofList_inj hempty] at hskip
    exact .of_skipLayout_bind (skipLayout_append_line hskip later) _
  · rcases hruns.path (composed_entry allowance).within rfl with ⟨last, rfl, hpath⟩
    have hresumes := resumes_entries hruns hlast rfl later
    rcases exists_stop hlast with ⟨gap, hstop, hgap⟩
    have hline : ('\n' :: later).head? = some '\n' := rfl
    have hlayout := (localAt_skipLayout (hfirst.trans (hpath.trans hstop))
      (fullStop_of_skipLayout hgap) hline).stable
    rw [skipLayout_of_done hskip] at hlayout
    -- What is read later comes behind all entries, the last one included.
    have happend : (fun entries : List Entry => (⟨others ++ value :: entries⟩ : Problem)) =
        fun entries => Document.append ⟨others ++ [value]⟩ ⟨entries⟩ := by
      funext entries
      rw [Document.append, List.append_assoc, List.singleton_append]
    have hmapped := hresumes.map (Document.mk : List Entry → Problem)
    rw [happend] at hmapped
    rw [skipLayout_bind hlayout]
    exact hmapped.of_map.labeled "tptp"

theorem composed_endOfInput : Composed true true endOfInput := by
  -- The end of the text is seen from the next character, which is missing there.
  have hlook : endOfInput = fun rest : Rest =>
      (if rest.chars.head? = none then pure () else fail "end of input" : Parser Unit) rest := by
    funext rest
    rw [endOfInput, Rest.atEnd]
    cases rest.chars <;> rfl
  rw [hlook]
  refine .look (p := fun c => if c = none then pure () else fail "end of input")
    (fun hstops => absurd hstops.symm Bool.false_ne_true) (fun _ _ _ _ => rfl) fun c => ?_
  split
  · exact .pure ()
  · exact .fail _

theorem composed_whole {p : Parser α} (hp : Composed true true p) :
    Composed true true (whole p) :=
  hp.bind fun _ => composed_endOfInput.bind fun _ => .pure _

end Grammar

open Reading

/-- If a text is a problem, then the entries of a text behind it, on new lines, come after
    its entries. If that text does not match the grammar, the error is found where it is
    found in that text by itself. Nothing in front of the second text matters. -/
theorem problem_append {a : String} {problem : Problem} (h : Read.problem a = .ok problem)
    (b : String) :
    (∀ other, Read.problem b = .ok other →
      Read.problem (a ++ "\n" ++ b) = .ok (problem.append other)) ∧
    (∀ error, Read.problem b = .error (.mismatch error) →
      ∃ later, Read.problem (a ++ "\n" ++ b) = .error (.mismatch later) ∧
        later.position = a.length + 1 + error.position) ∧
    ∀ reason, Read.problem b = .error (.aborted reason) →
      Read.problem (a ++ "\n" ++ b) = .error (.aborted reason) := by
  have htext : (a ++ "\n" ++ b).toList = a.toList ++ '\n' :: b.toList := by
    rw [String.toList_append, String.toList_append, List.append_assoc]
    rfl
  rcases readFromStart_ok_iff.mp h with ⟨after, hwhole⟩
  have hresumes := Grammar.resumes_problem hwhole b.toList
  rw [← htext] at hresumes
  -- The layout in front is set apart, since it is skipped as part of the layout between the
  -- texts if another one comes first.
  have hassoc : whole (Parser.skipLayout *> Grammar.problem nestingAllowance) =
      Parser.skipLayout *> whole (Grammar.problem nestingAllowance) :=
    bind_assoc (m := Parser) Parser.skipLayout (fun _ => Grammar.problem nestingAllowance) _
  have hwithin : Within b.toList
      ((Parser.skipLayout *> whole (Grammar.problem nestingAllowance)) (.ofList b.toList)) :=
    (Composed.layout.bind fun _ =>
      Grammar.composed_whole (Grammar.composed_problem nestingAllowance)).within b.toList
  refine ⟨fun other hother => ?_, fun error herror => ?_, fun reason hreason => ?_⟩
  · rcases readFromStart_ok_iff.mp hother with ⟨last, hdone⟩
    rw [hassoc] at hdone
    exact readFromStart_ok_iff.mpr ⟨last, hresumes.outcome_done hdone⟩
  · rcases failsAt_of_mismatch herror with ⟨left, hfails, hposition⟩
    rw [hassoc] at hfails
    -- The failure arose in the second text, so the place is counted from its start.
    have hle := hfails.le_length hwithin
    rcases mismatch_of_failsAt (hresumes.failsAt hwithin hfails) with ⟨later, hlater, hplace⟩
    refine ⟨later, hlater, ?_⟩
    rw [hplace, hposition, htext, positionOf, positionOf, List.length_append, List.length_cons,
      String.length_toList]
    omega
  · have haborted := readFromStart_aborted_iff.mp hreason
    rw [hassoc] at haborted
    exact readFromStart_aborted_iff.mpr (hresumes.outcome_aborted haborted)

/-- A unit behind an inclusion, on the line after a comment. -/
theorem problem_append_of_comment : ∃ first second,
    Read.problem "include('a'). % one" = .ok first ∧ Read.problem "cnf(b,plain,q)." = .ok second ∧
      Read.problem ("include('a'). % one" ++ "\n" ++ "cnf(b,plain,q).") =
        .ok (first.append second) := by
  have hfirst : (Read.problem "include('a'). % one").isOk = true := by decide +kernel
  have hsecond : (Read.problem "cnf(b,plain,q).").isOk = true := by decide +kernel
  rcases hreadFirst : Read.problem "include('a'). % one" with error | first
  · rw [hreadFirst] at hfirst
    exact absurd hfirst Bool.false_ne_true
  rcases hreadSecond : Read.problem "cnf(b,plain,q)." with error | second
  · rw [hreadSecond] at hsecond
    exact absurd hsecond Bool.false_ne_true
  exact ⟨first, second, rfl, rfl, (problem_append hreadFirst _).1 second hreadSecond⟩

end Tptp
