import Tptp.Proofs.Numbers.Limit
import Tptp.Proofs.Reasons
import Tptp.Proofs.Yields.Document

/-!
# Ways into the Library

How the functions that read a text can end, all of them for all texts.

A text has a value, or it has an error. Most errors are parse errors: the text does
not match the grammar, or it is nested too deeply for the allowance. The one other
way to end is a number that cannot be held. Reading is given up where the number
stands, so no alternative of the grammar recovers from it, and what is said then is
not about the text. A text that ends this way holds such a number, and only functions
that take numbers end this way.

## Main definitions

* `IsParseError`: The errors that are reported as errors of a text.
* `Abort.isNumber`, `Numberless`: Giving up for a number, and productions that never do.
* `EntryPoint`: The functions that read a whole text.
* `EntryPoint.takesNumbers`: Whether there can be a number in such a text.

## Theorems

* `Read.announcements_done`: Every text has a summary.
* `Read.number_of_longNumeral`: Digits that are too many are given up for.
* `EntryPoint.exists_production`: What is known about the productions behind the functions.
* `EntryPoint.read_total`: A text has a value, a parse error or a number that is too large.
* `EntryPoint.number_not_parseError`: Numbers that are too large are not parse errors.
-/

namespace Tptp

namespace Reading

/-- An error that is reported as one of the text: it does not match, or it is nested
    too deeply. -/
inductive IsParseError (text : String) : ReadError → Prop where
  | mismatch {error : Mismatch} (htext : error.text = text) : IsParseError text (.mismatch error)
  | tooDeep : IsParseError text (.aborted .tooDeep)

/-- The reasons to give up that are about a number. -/
def Abort.isNumber : Abort → Bool
  | .numeralTooLong _ => true
  | .decimalOutOfRange => true
  | _ => false

/-- A production that gives up for no number. -/
def Numberless {α : Type} (p : Parser α) : Prop :=
  GivesUpOnly (fun reason => reason.isNumber = false) p

variable {α : Type} {W : α → Prop} {p : Parser α}

/-- What the text is to blame for is its nesting or a number. -/
theorem Excuse.eq_tooDeep_or_isNumber {text : List Char} {reason : Abort}
    (h : Excuse text reason) : reason = .tooDeep ∨ reason.isNumber = true := by
  cases h with
  | tooDeep => exact .inl rfl
  | numeral => exact .inr rfl
  | decimal => exact .inr rfl

/-- Whatever does not match is a mismatch in the text that was given. -/
theorem text_of_mismatch {text : String} {error : Mismatch}
    (h : readFromStart p text = .error (.mismatch error)) : error.text = text := by
  rw [readFromStart_eq] at h
  rcases hwhole : whole p (.ofList text.toList) with ⟨_ | _ | _, dropped⟩
  · rw [hwhole] at h
    exact absurd h nofun
  · rw [hwhole] at h
    rw [← ReadError.mismatch.inj (Except.error.inj h)]
    exact String.ofList_toList
  · rw [hwhole] at h
    exact absurd h nofun

/-- A text has a value, or a parse error, or a number that is too large. -/
theorem readFromStart_total (h : Yields p W) (text : String) :
    (∃ value, readFromStart p text = .ok value) ∨
      (∃ error, readFromStart p text = .error error ∧ IsParseError text error) ∨
      ∃ reason, readFromStart p text = .error (.aborted reason) ∧ reason.isNumber = true ∧
        Excuse text.toList reason := by
  rcases hread : readFromStart p text with (error | reason) | value
  · exact .inr (.inl ⟨_, rfl, .mismatch (text_of_mismatch hread)⟩)
  · have hexcuse := (readFromStart_yields h text).2 reason hread
    rcases hexcuse.eq_tooDeep_or_isNumber with rfl | hnumber
    · exact .inr (.inl ⟨_, rfl, .tooDeep⟩)
    · exact .inr (.inr ⟨reason, rfl, hnumber, hexcuse⟩)
  · exact .inl ⟨value, rfl⟩

/-- A whole text is given up for a reason of the production. -/
theorem GivesUpOnly.of_aborted {E : Abort → Prop} (h : GivesUpOnly E p) {text : String}
    {reason : Abort} (hread : readFromStart p text = .error (.aborted reason)) : E reason :=
  (h.bind fun _ => GivesUpOnly.endOfInput.bind fun _ => .pure _).reason
    (readFromStart_aborted_iff.mp hread)

end Reading

open Reading

/-- A comment line matches whatever it says, so every text has a summary. -/
theorem Read.announcements_done (text : String) :
    ∃ after, (Grammar.announcements (.ofList text.toList)).outcome =
      .done (Read.announcements text) after := by
  have hline : ∀ rest, ∃ summary after,
      (Grammar.announcement rest).outcome = .done summary after := fun _ => ⟨_, _, rfl⟩
  rcases (Parser.loop_repeatWhile (·.opensWith '%') Grammar.announcement
    ((Rest.ofList text.toList).skipWhile Text.isBlank)).exists_done hline with ⟨lines, last, hlines⟩
  have hdone : (Grammar.announcements (.ofList text.toList)).outcome =
      .done (lines.foldl Szs.Summary.join .empty) last :=
    Parser.bind_outcome_eq_done_iff.mpr
      ⟨(), _, rfl, Parser.bind_outcome_eq_done_iff.mpr ⟨lines, last, hlines, rfl⟩⟩
  refine ⟨last, ?_⟩
  rw [Read.announcements, hdone]

/-- An integer with more digits than are read is given up for, whatever stands behind it. -/
theorem Grammar.givesUp_number {chars : List Char}
    (hlong : Numeral.digitLimit < (chars.takeWhile Char.isDigit).length) :
    GivesUp (.numeralTooLong (chars.takeWhile Char.isDigit).length) Grammar.number chars := by
  have hdigits : Digits (chars.takeWhile Char.isDigit) :=
    ⟨List.ne_nil_of_length_pos (Nat.zero_lt_of_lt hlong), List.all_eq_true.mp List.all_takeWhile⟩
  have hend : DigitsEnd (chars.dropWhile Char.isDigit) := by
    intro c hc
    have hnot := List.head?_dropWhile_not Char.isDigit chars
    rw [Option.mem_def.mp hc] at hnot
    exact hnot
  have hsign : IsSign none := fun c hc => absurd hc (Option.not_mem_none c)
  have h := givesUp_number_of_leading hsign hdigits hlong hend
  rwa [Option.toList_none, List.nil_append, List.takeWhile_append_dropWhile] at h

/-- A whole text that starts with more digits than are read. -/
theorem Read.number_of_longNumeral {text : String}
    (hlong : Numeral.digitLimit < (text.toList.takeWhile Char.isDigit).length) :
    Read.number text =
      .error (.aborted (.numeralTooLong (text.toList.takeWhile Char.isDigit).length)) := by
  have hsignificant : Significant text.toList := by
    rcases htext : text.toList with _ | ⟨c, rest⟩
    · exact significant_nil
    · refine significant_of_isWordChar (Text.isWordChar_of_isDigit (Bool.of_not_eq_false ?_)) rest
      intro hc
      rw [htext, List.takeWhile_cons, hc, if_neg Bool.false_ne_true] at hlong
      exact absurd hlong (Nat.not_lt_zero _)
  exact read_of_givesUp (.nil _) hsignificant (Grammar.givesUp_number hlong)

/-- The functions that read a whole text. -/
inductive EntryPoint where
  | atom
  | var
  | distinctObject
  | function
  | predicate
  | sort
  | polySort
  | signature
  | number
  | term
  | literal
  | clause
  | unsortedFormula
  | monoFormula
  | polyFormula
  | modalFormula
  | formula (language : Language)
  | entry
  | problem
  | transcript
  | intro
  | info
  | parent
  | source
  | provenance

namespace EntryPoint

/-- What a function reads a text as. -/
def Value : EntryPoint → Type
  | atom => Atom
  | var => Var
  | distinctObject => DistinctObject
  | function => FunctionName
  | predicate => PredicateName
  | sort => SortName
  | polySort => PolySort SortName
  | signature => Signature
  | number => Number
  | term => Term
  | literal => Literal
  | clause => Clause
  | unsortedFormula => UnsortedFormula
  | monoFormula => MonoFormula
  | polyFormula => PolyFormula
  | modalFormula => ModalFormula
  | formula _ => Formula
  | entry => Entry
  | problem => Problem
  | transcript => Transcript
  | intro => Reserved Intro
  | info => Info
  | parent => Parent
  | source => Source
  | provenance => Provenance

/-- The function itself. -/
def read : (e : EntryPoint) → String → Except ReadError e.Value
  | atom => Read.atom
  | var => Read.var
  | distinctObject => Read.distinctObject
  | function => Read.function
  | predicate => Read.predicate
  | sort => Read.sort
  | polySort => Read.polySort
  | signature => Read.signature
  | number => Read.number
  | term => Read.term
  | literal => Read.literal
  | clause => Read.clause
  | unsortedFormula => Read.unsortedFormula
  | monoFormula => Read.monoFormula
  | polyFormula => Read.polyFormula
  | modalFormula => Read.modalFormula
  | formula language => Read.formula (some language)
  | entry => Read.entry
  | problem => Read.problem
  | transcript => Read.transcript
  | intro => Read.intro
  | info => Read.info
  | parent => Read.parent
  | source => Read.source
  | provenance => Read.provenance

/-- There can be a number in what the function reads. -/
def takesNumbers : EntryPoint → Bool
  | atom | var | distinctObject | function | predicate | sort | polySort | signature
  | intro => false
  | _ => true

/-- Behind the function there is a production that gives up only for the text, and for
    no number where none can be. -/
theorem exists_production (e : EntryPoint) :
    ∃ (p : Parser e.Value) (W : e.Value → Prop), e.read = readFromStart p ∧ Yields p W ∧
      (e.takesNumbers = false → Numberless p) := by
  -- All functions but one skip the layout in front of a production.
  have hread : ∀ {α : Type} {p : Parser α} {W : α → Prop} {numbers : Bool}
      (_ : Yields p W) (_ : numbers = false → Numberless p),
      ∃ (q : Parser α) (W : α → Prop), Reading.read p = readFromStart q ∧ Yields q W ∧
        (numbers = false → Numberless q) := fun hyields hnumber =>
    ⟨_, _, rfl, yields_skipLayout.bind fun _ _ => hyields,
      fun h => GivesUpOnly.skipLayout.bind fun _ => hnumber h⟩
  have hrefused : ∀ refusal, (Abort.refused refusal).isNumber = false := fun _ => rfl
  have hdeep : Abort.tooDeep.isNumber = false := rfl
  have hname : ∀ {V : Type} [Vocabulary V] (label : String),
      Numberless (Parser.labeled label (Grammar.name V)) := fun _ =>
    (Grammar.givesUpOnly_name hrefused _).labeled _
  cases e with
  | atom => exact hread Grammar.yields_atom fun _ => Grammar.givesUpOnly_atom hrefused
  | var => exact hread Grammar.yields_var fun _ => Grammar.givesUpOnly_var hrefused
  | distinctObject =>
      exact hread Grammar.yields_distinctObject fun _ =>
        Grammar.givesUpOnly_distinctObject hrefused
  | function => exact hread Grammar.yields_function fun _ => hname _
  | predicate => exact hread Grammar.yields_predicate fun _ => hname _
  | sort => exact hread Grammar.yields_sort fun _ => hname _
  | polySort =>
      exact hread (Grammar.yields_polySort _) fun _ =>
        (Grammar.givesUpOnly_polySort_and_argument hrefused hdeep _).1
  | signature =>
      exact hread (Grammar.yields_signature _) fun _ =>
        Grammar.givesUpOnly_signature hrefused hdeep _
  | intro =>
      exact hread ((Grammar.yields_reserved Intro).labeled _) fun _ =>
        (Grammar.givesUpOnly_reserved Intro).labeled _
  | number => exact hread Grammar.yields_number nofun
  | term => exact hread (Grammar.yields_term _) nofun
  | literal => exact hread (Grammar.yields_literal _) nofun
  | clause => exact hread (Grammar.yields_clause _) nofun
  | unsortedFormula => exact hread (Grammar.yields_unsortedFormula _) nofun
  | monoFormula => exact hread (Grammar.yields_monoFormula _) nofun
  | polyFormula => exact hread (Grammar.yields_polyFormula _) nofun
  | modalFormula => exact hread (Grammar.yields_modalFormula _) nofun
  | formula language => exact hread (Grammar.yields_formula language _) nofun
  | entry => exact hread (Grammar.yields_entry _) nofun
  | problem => exact hread (Grammar.yields_problem _) nofun
  | transcript => exact ⟨_, _, rfl, Grammar.yields_transcript _, nofun⟩
  | info => exact hread (Grammar.yields_info _) nofun
  | parent => exact hread (Grammar.yields_parentRule (Grammar.yields_source _)) nofun
  | source => exact hread (Grammar.yields_source _) nofun
  | provenance => exact hread (Grammar.yields_provenance _) nofun

/-- A text has a value, or a parse error, or it holds a number that is too large and
    was given to a function that takes numbers. Every text has a summary. -/
theorem read_total (text : String) :
    (∀ e : EntryPoint, (∃ value, e.read text = .ok value) ∨
      (∃ error, e.read text = .error error ∧ IsParseError text error) ∨
      ∃ reason, e.read text = .error (.aborted reason) ∧ e.takesNumbers = true ∧
        reason.isNumber = true ∧ Excuse text.toList reason) ∧
      ∃ after, (Grammar.announcements (.ofList text.toList)).outcome =
        .done (Read.announcements text) after := by
  refine ⟨fun e => ?_, Read.announcements_done text⟩
  rcases e.exists_production with ⟨p, W, hread, hyields, hnumberless⟩
  rw [hread]
  rcases readFromStart_total hyields text with hvalue | herror | ⟨reason, h, hnumber, hexcuse⟩
  · exact .inl hvalue
  · exact .inr (.inl herror)
  · refine .inr (.inr ⟨reason, h, ?_, hnumber, hexcuse⟩)
    rcases hnumbers : e.takesNumbers with _ | _
    · have hnone := GivesUpOnly.of_aborted (hnumberless hnumbers) h
      exact absurd (hnumber.symm.trans hnone) nofun
    · rfl

/-- Numbers that are too large are not parse errors: a decimal whose exponent cannot be
    held, and an integer with one digit more than are read. -/
theorem number_not_parseError :
    (∃ reason, number.read "1e1000000000000000000" = .error (.aborted reason) ∧
      ¬ IsParseError "1e1000000000000000000" (.aborted reason)) ∧
    ∃ text reason, text.toList = List.replicate (Numeral.digitLimit + 1) '1' ∧
      number.read text = .error (.aborted reason) ∧ ¬ IsParseError text (.aborted reason) := by
  have hreason : (match number.read "1e1000000000000000000" with
      | .error (.aborted reason) => some reason
      | _ => none) = some .decimalOutOfRange := by decide +kernel
  have hdecimal : number.read "1e1000000000000000000" = .error (.aborted .decimalOutOfRange) := by
    rcases hread : number.read "1e1000000000000000000" with (_ | reason) | _
    · exact absurd (hread ▸ hreason) nofun
    · rw [hread, Option.some.injEq] at hreason
      rw [hreason]
    · exact absurd (hread ▸ hreason) nofun
  refine ⟨⟨_, hdecimal, nofun⟩, .ofList (List.replicate (Numeral.digitLimit + 1) '1'), _,
    String.toList_ofList, Read.number_of_longNumeral ?_, nofun⟩
  have hdigits : ∀ n, (List.replicate n '1').takeWhile Char.isDigit = List.replicate n '1' := by
    intro n
    rw [List.takeWhile_replicate_eq_filter, List.filter_replicate_of_pos rfl]
  rw [String.toList_ofList, hdigits, List.length_replicate]
  exact Nat.lt_succ_self _

end EntryPoint

end Tptp
