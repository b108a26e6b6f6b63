import Tptp.Proofs.Bookkeeping.History
import Tptp.Proofs.Located.Position
import Tptp.Proofs.Progress.Exhausted
import Tptp.Proofs.Progress.Grammar

/-!
# Where Errors Are

Every error of a text is located in it.

There are two kinds of errors. If the text does not match, the error is at the place of a failure
on record, and what is on record has arisen at a place of the text. If the text is nested too
deeply, reading is broken off where it happens to be. How much nesting is too much is not for
the grammar to say, so this may happen at any stage that is entered. All stages are at places
of the text, and if the allowance ends, one of them is where it does.

## Main definitions

* `EntryPoint.plan`: The functions that read a whole text, as plans.
* `Stage.Visits`: The places at which reading is during a stage.
* `EntryPoint.Reports`: The errors that can be reported for a text.
* `Mismatch.Located`: An error at a place of a text, with what is known of the place.

## Theorems

* `EntryPoint.read_eq`: Functions do what their plans say.
* `located_of_mismatch`: Where a text does not match, the error is located.
* `EntryPoint.Reports.located`: What can be reported is located.
* `EntryPoint.exists_reports`: What is reported as an error of the text can be reported.
* `EntryPoint.error_located`: Errors are located, and locations tell positions.
-/

namespace Tptp

namespace Reading

open Relation

variable {α : Type}

/-- The error is at a place of the text, and what it tells about the place is so. -/
structure Mismatch.Located (text : String) (error : Mismatch) : Prop where
  text_eq : error.text = text
  position_le : error.position ≤ text.toList.length
  location_eq : error.location = .ofPosition text.toList error.position
  context_eq : error.context = String.ofList (contextAt text.toList error.position)

theorem Mismatch.located_ofPosition (text : String) {position : Nat}
    (h : position ≤ text.toList.length) (labels : List String) :
    (Mismatch.ofPosition text.toList position labels).Located text :=
  ⟨String.ofList_toList, h, rfl, rfl⟩

/-- Where a text does not match, a failure has escaped. -/
theorem exists_escaped {a : Assembly α} {text : String} {error : Mismatch}
    (h : readAll a.parser text = .error (.mismatch error)) :
    ∃ escaped, (a.whole.parser (.start text.toList)).outcome = .failed escaped := by
  rw [readAll, ← Assembly.parser_whole, Session.step] at h
  rcases hresult : a.whole.parser (.start text.toList) with ⟨_ | escaped | _, dropped⟩
  · rw [hresult] at h
    cases h
  · exact ⟨escaped, rfl⟩
  · rw [hresult] at h
    cases h

/-- Where a text does not match, the error is at the place of a failure on record. -/
theorem located_of_mismatch {a : Assembly α} {text : String} {error : Mismatch}
    (h : readAll a.parser text = .error (.mismatch error)) : error.Located text := by
  rcases exists_escaped h with ⟨escaped, hescaped⟩
  rcases exists_furthest_of_escaped hescaped with ⟨furthest, hrecord, hread⟩
  have hkept := History.kept_of [Turn.whole text.toList a]
  rw [hkept.follows.record] at hrecord
  rcases hkept.orderly.bookkept.within _ furthest (List.prefix_refl _) hrecord with ⟨hle, -⟩
  rw [← ReadError.mismatch.inj (Except.error.inj (hread.symm.trans h))]
  refine Mismatch.located_ofPosition text ?_ _
  rw [positionOf]
  omega

variable {C : Type → Type 1}

/-- The places at which reading is during a stage: where the stage is, and behind blanks, where a
    comment may open. -/
inductive Stage.Visits : Stage C → Rest → Prop where
  | here (stage : Stage C) : Visits stage stage.rest
  | blanks (rest : Rest) : Visits ⟨.layout, rest⟩ (rest.skipWhile Text.isBlank)

theorem Stage.Visits.ahead {stage : Stage C} {after : Rest} (h : stage.Visits after) :
    stage.rest.Ahead after := by
  cases h with
  | here => exact .refl _
  | blanks rest => exact rest.ahead_skipWhile _

end Reading

open Reading Relation

namespace EntryPoint

/-- The production behind a function. -/
def production : (e : EntryPoint) → Production e.Value
  | atom => .atom
  | var => .var
  | distinctObject => .distinctObject
  | function => .function
  | predicate => .predicate
  | sort => .sort
  | polySort => .polySort
  | signature => .signature
  | number => .number
  | term => .term
  | literal => .literal
  | clause => .clause
  | unsortedFormula => .unsortedFormula
  | monoFormula => .monoFormula
  | polyFormula => .polyFormula
  | modalFormula => .modalFormula
  | formula language => .formula language
  | entry => .entry
  | problem => .problem
  | transcript => .transcript
  | intro => .intro
  | info => .info
  | parent => .parent
  | source => .source
  | provenance => .provenance

/-- The production, with the layout in front of it. The layout in front of a transcript is part
    of it. -/
def item : (e : EntryPoint) → Plan Production e.Value
  | transcript => .call .transcript
  | e => do
      Plan.layout
      .call e.production

/-- What is done with a whole text. -/
def plan (e : EntryPoint) : Plan Production e.Value := do
  let value ← e.item
  Plan.step Parser.endOfInput isStep_endOfInput
  return value

/-- A function does what its plan says. -/
theorem read_eq (e : EntryPoint) :
    e.read = readFromStart (e.item.run Production.parser nestingAllowance) := by
  cases e <;> rfl

/-- The plan descends, so that all it enters is in the text. -/
theorem descends_plan (e : EntryPoint) (text : String) :
    Stage.Descends Production.ranking ⟨e.plan, .ofList text.toList⟩ := by
  have hend : ∀ value : e.Value, Plan.Descends Production.ranking
      (Plan.step Parser.endOfInput isStep_endOfInput >>= fun _ => Plan.pure value) ⊤ false :=
    fun value => (Plan.descends_step isStep_endOfInput).bind fun _ => rfl
  have hitem : e.item.Descends Production.ranking ⊤ false := by
    have hlayout : (Plan.layout : Plan Production Unit).Descends Production.ranking ⊤ false := rfl
    cases e with
    | transcript => exact Plan.descends_call_top _
    | _ => exact hlayout.bind fun _ => Plan.descends_call_top _
  exact ⟨rfl, ⊤, false, hitem.bind hend⟩

/-- The parser behind a function is assembled. -/
theorem isAssembled (e : EntryPoint) :
    IsAssembled (Parser.lift (e.item.run Production.parser nestingAllowance)) := by
  have hlayout : ∀ {α : Type} {p : Parser α}, Grammar.IsProduction p →
      IsAssembled (Parser.lift (Parser.skipLayout >>= fun _ => p)) := fun hp =>
    (IsAssembled.primitive .skipLayout).lift_bind fun _ => hp.isAssembled
  cases e with
  | atom => exact hlayout .atom
  | var => exact hlayout .var
  | distinctObject => exact hlayout .distinctObject
  | function => exact hlayout .function
  | predicate => exact hlayout .predicate
  | sort => exact hlayout .sort
  | polySort => exact hlayout (.polySort _)
  | signature => exact hlayout (.signature _)
  | number => exact hlayout .number
  | term => exact hlayout (.term _)
  | literal => exact hlayout (.literal _)
  | clause => exact hlayout (.clause _)
  | unsortedFormula => exact hlayout (.unsortedFormula _)
  | monoFormula => exact hlayout (.monoFormula _)
  | polyFormula => exact hlayout (.polyFormula _)
  | modalFormula => exact hlayout (.modalFormula _)
  | formula language => exact hlayout (.formula (some language) _)
  | entry => exact hlayout (.entry _)
  | problem => exact hlayout (.problem _)
  | transcript => exact Grammar.isAssembled_transcript _
  | intro => exact hlayout .intro
  | info => exact hlayout (.info _)
  | parent => exact hlayout (.parent _)
  | source => exact hlayout (.source _)
  | provenance => exact hlayout (.provenance _)

/-- The errors that can be reported for a text. If it does not match, there is one. If nesting is
    too deep, it is at a place that some stage visits, whichever it is. -/
inductive Reports (e : EntryPoint) (text : String) : Mismatch → Prop where
  | mismatch {error : Mismatch} (h : e.read text = .error (.mismatch error)) : Reports e text error
  | nested {stage : Stage Production} {after : Rest}
      (h : ReflTransGen (Stage.Enters Production.rules) ⟨e.plan, .ofList text.toList⟩ stage)
      (hafter : stage.Visits after) :
      Reports e text (.ofPosition text.toList (positionOf text.toList after.left)
        [Abort.tooDeep.message])

/-- All that can be reported is located. -/
theorem Reports.located {e : EntryPoint} {text : String} {error : Mismatch}
    (h : e.Reports text error) : error.Located text := by
  cases h with
  | mismatch h =>
      rcases e.isAssembled with ⟨a, ha⟩
      rw [read_eq, readFromStart, ← ha] at h
      exact located_of_mismatch h
  | nested h hafter =>
      have hahead := ((e.descends_plan text).reaches Production.descends h).2.trans hafter.ahead
      rw [← Rest.ofPosition_zero] at hahead
      rcases hahead.exists_ofPosition (Nat.zero_le _) with ⟨position, rfl, -, hle⟩
      rw [positionOf_ofPosition]
      exact Mismatch.located_ofPosition text hle _

/-- What is reported as an error of the text is one that can be reported. If the text is nested
    too deeply, then there is a stage at which no unit of the allowance is left. -/
theorem exists_reports {e : EntryPoint} {text : String} {error : ReadError}
    (h : e.read text = .error error) (hparse : IsParseError text error) :
    (∃ reported, error = .mismatch reported ∧ e.Reports text reported) ∨
      error = .aborted .tooDeep ∧ ∃ stage : Stage Production,
        stage.Exhausted Production.rules ∧
          e.Reports text (.ofPosition text.toList (positionOf text.toList stage.rest.left)
            [Abort.tooDeep.message]) := by
  cases hparse with
  | @mismatch reported _ => exact .inl ⟨reported, rfl, .mismatch h⟩
  | tooDeep =>
      rw [read_eq, readFromStart_aborted_iff] at h
      have hdeep : Stage.GivesUp Production.rules ⟨e.plan, .ofList text.toList⟩ := ⟨_, h⟩
      rcases (e.descends_plan text).exists_exhausted Production.descends hdeep with
        ⟨stage, hreaches, hexhausted⟩
      exact .inr ⟨rfl, stage, hexhausted, .nested hreaches (.here stage)⟩

/-- If there is no such language, the layout in front of the formula is skipped all the same. An
    error of the text can only be there. -/
theorem located_of_noLanguage {text : String} {error : ReadError}
    (h : Read.formula none text = .error error) (hparse : IsParseError text error) :
    ∃ reported, error = .mismatch reported ∧ reported.Located text := by
  cases hparse with
  | @mismatch reported _ =>
      have hproduction := Grammar.IsProduction.formula none nestingAllowance
      rcases (IsAssembled.primitive .skipLayout).lift_bind fun _ => hproduction.isAssembled with
        ⟨a, ha⟩
      have hread : readAll a.parser text = .error (.mismatch reported) := by
        rw [ha]
        exact h
      exact ⟨reported, rfl, located_of_mismatch hread⟩
  | tooDeep =>
      have hreason : GivesUpOnly (· ≠ .tooDeep)
          (Parser.skipLayout >>= fun _ => Grammar.formulaIn none nestingAllowance) :=
        GivesUpOnly.skipLayout.bind fun _ => .abort nofun
      exact absurd rfl (hreason.of_aborted h)

/-- Locations stand in the order of positions, and they tell the positions. Every error that can be
    reported for a text, by any of the functions, is located in it, and all errors of the text
    are among them. Without a language there is no formula to be read, and a summary is read
    from every text. -/
theorem error_located (text : String) :
    (∀ p q, p < q →
      toLex ((Location.ofPosition text.toList p).line, (Location.ofPosition text.toList p).column) <
        toLex ((Location.ofPosition text.toList q).line,
          (Location.ofPosition text.toList q).column)) ∧
    (∀ p, (Location.ofPosition text.toList p).line - 1 = (text.toList.take p).count '\n' ∧
      Location.lineStart text.toList p + ((Location.ofPosition text.toList p).column - 1) = p ∧
        (Location.ofPosition text.toList p).position text.toList = p) ∧
    (∀ e : EntryPoint,
      (∀ error, e.Reports text error → error.Located text) ∧
      ∀ error, e.read text = .error error → IsParseError text error →
        (∃ reported, error = .mismatch reported ∧ e.Reports text reported) ∨
          error = .aborted .tooDeep ∧ ∃ stage : Stage Production,
            stage.Exhausted Production.rules ∧
              e.Reports text (.ofPosition text.toList (positionOf text.toList stage.rest.left)
                [Abort.tooDeep.message])) ∧
    (∀ error, Read.formula none text = .error error → IsParseError text error →
      ∃ reported, error = .mismatch reported ∧ reported.Located text) ∧
    ∃ after, (Grammar.announcements (.ofList text.toList)).outcome =
      .done (Read.announcements text) after := by
  refine ⟨fun p q => Location.ofPosition_lt _, fun p => ⟨rfl, ?_, ?_⟩, fun e => ⟨?_, ?_⟩,
    fun error => located_of_noLanguage, Read.announcements_done text⟩
  · have hstart := Location.lineStart_add_column text.toList p
    have hcolumn : 0 < (Location.ofPosition text.toList p).column := Nat.succ_pos _
    omega
  · exact Location.position_ofPosition _ p
  · exact fun error h => h.located
  · exact fun error h hparse => exists_reports h hparse

/-- An argument is missing behind a newline. The error is in front of the parenthesis, in the second
    line, and it comes later than the newline itself. If reading is broken off at the start
    instead, the error is there. -/
theorem error_located_behind_newline :
    (∃ error, literal.read "p(\n)" = .error (.mismatch error) ∧ error.Located "p(\n)" ∧
      error.position = 3 ∧ error.location = ⟨2, 1⟩ ∧ error.location.position "p(\n)".toList = 3) ∧
    toLex (1, 3) < toLex (2, 1) ∧
    (Mismatch.ofPosition "p(\n)".toList 0 [Abort.tooDeep.message]).Located "p(\n)" := by
  have hplace : (match literal.read "p(\n)" with
      | .error (.mismatch error) => some error.position
      | _ => none) = some 3 := by decide +kernel
  rcases error_located "p(\n)" with ⟨hlt, hposition, herrors, -⟩
  rcases hread : literal.read "p(\n)" with (error | reason) | value
  · rw [hread, Option.some.injEq] at hplace
    have hlocated : error.Located "p(\n)" := by
      have hparse : IsParseError "p(\n)" (.mismatch error) := .mismatch (text_of_mismatch hread)
      rcases (herrors literal).2 _ hread hparse with ⟨reported, heq, hreports⟩ | ⟨hdeep, -⟩
      · rw [ReadError.mismatch.inj heq]
        exact (herrors literal).1 _ hreports
      · exact absurd hdeep nofun
    have hlocation : error.location = .ofPosition "p(\n)".toList 3 := by
      rw [hlocated.location_eq, hplace]
    refine ⟨⟨error, rfl, hlocated, hplace, ?_, ?_⟩, hlt 2 3 (by decide), ?_⟩
    · rw [hlocation]
      decide
    · rw [hlocation]
      exact (hposition 3).2.2
    · exact (herrors literal).1 _ (.nested .refl (.here _))
  · exact absurd (hread ▸ hplace) nofun
  · exact absurd (hread ▸ hplace) nofun

end EntryPoint

end Tptp
