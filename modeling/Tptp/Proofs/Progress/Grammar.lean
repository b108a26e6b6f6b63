import Tptp.Proofs.EntryPoint
import Tptp.Proofs.Progress.Ranking

/-!
# Progress of the Grammar

Every production comes to an end, at every place of every text.

The plans of the grammar descend, so with an allowance that is large enough a production has
an outcome of its own, which no larger allowance changes. It is a value with a place behind it
in the text, or a failure, or the production gives up. The last of these happens only where
there is a number in the text that cannot be held: the productions refuse none of the values
that they build, whatever item they are given.

How a production gets to its outcome is said about all stages that it enters, not only about
itself. A plan that is under way at a place is entered again, through any number of others,
only at a place further on, and the loops among the plans take a character in each round.

## Main definitions

* `Outcome.EndsIn`: Outcomes that lie inside a text.

## Theorems

* `Rest.Ahead.exists_ofPosition`: Places ahead are positions in the text.
* `Production.exists_yields`: Productions give up only if the text is to blame.
* `Production.progress`: Productions come to an end, and they make progress until then.
* `Production.number_neither_done_nor_failed`: A number that cannot be held is neither.
-/

namespace Tptp

namespace Reading

variable {α : Type} {text : List Char} {start : Nat} {after : Rest}

/-- A place ahead of a position in a text is a position in it, and no earlier one. -/
theorem Rest.Ahead.exists_ofPosition (h : (Rest.ofPosition text start).Ahead after)
    (hstart : start ≤ text.length) :
    ∃ stop, after = .ofPosition text stop ∧ start ≤ stop ∧ stop ≤ text.length := by
  rcases h with ⟨n, rfl⟩
  rcases Nat.le_total (start + n) text.length with hle | hle
  · exact ⟨start + n, Rest.drop_ofPosition hle, Nat.le_add_right .., hle⟩
  -- There are fewer characters left, and the end of the text is reached.
  · refine ⟨text.length, Rest.ext ?_ ?_, hstart, le_rfl⟩
    · change (text.drop start).drop n = text.drop text.length
      rw [List.drop_drop, List.drop_eq_nil_of_le hle, List.drop_length]
    · change start - text.length = text.length - text.length
      omega

/-- An outcome of reading a text from a position on: a value and a position behind it, further
    on if a character is said to be taken; or a failure; or a number that cannot be held. -/
def Outcome.EndsIn (text : List Char) (start : Nat) (takes : Bool) : Outcome α → Prop
  | .done _ after => ∃ stop, after = .ofPosition text stop ∧ start ≤ stop ∧ stop ≤ text.length ∧
      (takes = true → start < stop)
  | .failed _ => True
  | .aborted reason => reason.isNumber = true ∧ Excuse (text.drop start) reason

/-- What a parser settles for lies inside of the text, if only the text is to blame when it
    gives up. -/
theorem Settles.endsIn {p : Nat → Parser α} {outcome : Outcome α} {takes : Bool}
    {W : α → Prop} (h : Settles p (.ofPosition text start) outcome)
    (hmoves : outcome.MovesOn (.ofPosition text start) takes) (hyields : ∀ n, Yields (p n) W)
    (hstart : start ≤ text.length) : outcome.EndsIn text start takes := by
  cases outcome with
  | done value after =>
      rcases hmoves.1.exists_ofPosition hstart with ⟨stop, rfl, hle, hend⟩
      refine ⟨stop, rfl, hle, hend, fun htakes => ?_⟩
      have hlt : text.length - stop < text.length - start := hmoves.2 htakes
      omega
  | failed => exact trivial
  -- It settled for giving up, so nesting is not the reason.
  | aborted reason =>
      rcases h.exists_allowance with ⟨n, hn⟩
      have hexcuse := (hyields n).excuse (hn n le_rfl)
      exact ⟨hexcuse.eq_tooDeep_or_isNumber.resolve_left hmoves, hexcuse⟩

end Reading

open Reading

/-- Every dialect of the grammar builds its formulas without being refused. -/
theorem FormulaKind.exists_keeps {F B : Type} (which : FormulaKind F B) :
    ∃ W U, which.dialect.Keeps W U := by
  cases which with
  | unsorted => exact ⟨_, _, Grammar.keeps_firstOrder (N := fun _ => True) fun _ => .pure trivial⟩
  | mono =>
      exact ⟨_, _, Grammar.keeps_firstOrder (Grammar.yields_sortedNote Grammar.yields_plainSort)⟩
  | poly =>
      exact ⟨_, _, Grammar.keeps_firstOrder (Grammar.yields_sortedNote Grammar.yields_polyRange)⟩
  | modal => exact ⟨_, _, Grammar.keeps_modalLogic⟩

namespace Production

open Grammar

/-- What productions match has some property, and they give up only if the text is to blame.
    The induction is on what a production is given. -/
theorem exists_yields {α : Type} (P : Production α) : ∃ W, ∀ n, Yields (P.parser n) W := by
  induction P with
  | atom => exact ⟨_, fun _ => yields_atom⟩
  | var => exact ⟨_, fun _ => yields_var⟩
  | distinctObject => exact ⟨_, fun _ => yields_distinctObject⟩
  | reserved V => exact ⟨_, fun _ => yields_reserved V⟩
  | name V => exact ⟨_, fun _ => yields_name V⟩
  | function => exact ⟨_, fun _ => yields_function⟩
  | predicate => exact ⟨_, fun _ => yields_predicate⟩
  | sort => exact ⟨_, fun _ => yields_sort⟩
  | optionalParens item ih =>
      rcases ih with ⟨W, hitem⟩
      exact ⟨W, Yields.optionalParens hitem⟩
  | polySort => exact ⟨_, yields_polySort⟩
  | kind => exact ⟨_, fun _ => yields_kind⟩
  | polyMapping => exact ⟨_, fun n => yields_mapping (yields_polySortArgument n)⟩
  | arity => exact ⟨_, yields_arity⟩
  | signature => exact ⟨_, yields_signature⟩
  | number => exact ⟨_, fun _ => yields_number⟩
  | term => exact ⟨_, yields_term⟩
  | literal => exact ⟨_, yields_literal⟩
  | signedLiteral => exact ⟨_, yields_signedLiteral⟩
  | subclause => exact ⟨_, yields_subclause⟩
  | clause => exact ⟨_, yields_clause⟩
  | unitary which =>
      rcases which.exists_keeps with ⟨W, U, h⟩
      exact ⟨W, yields_unitary h⟩
  | formulaOf which =>
      rcases which.exists_keeps with ⟨W, U, h⟩
      exact ⟨W, yields_formulaOf h⟩
  | unsortedNote => exact ⟨fun _ => True, fun _ => .pure trivial⟩
  | sortedNote item ih =>
      rcases ih with ⟨S, hitem⟩
      exact ⟨_, yields_sortedNote hitem⟩
  | plainSort => exact ⟨_, yields_plainSort⟩
  | polyRange => exact ⟨_, yields_polyRange⟩
  | unsortedFormula => exact ⟨_, yields_unsortedFormula⟩
  | monoFormula => exact ⟨_, yields_monoFormula⟩
  | polyFormula => exact ⟨_, yields_polyFormula⟩
  | modalFormula => exact ⟨_, yields_modalFormula⟩
  | sortedFormula => exact ⟨_, fun n => (yields_polyFormula n).map fun _ h => wellFormed_ofPoly h⟩
  | formula l => exact ⟨_, yields_formula l⟩
  | role => exact ⟨_, fun _ => (yields_reserved Role).labeled _⟩
  | language => exact ⟨_, fun _ => (yields_member Language).labeled _⟩
  | typeDeclaration => exact ⟨_, yields_typeDeclaration⟩
  | declaration l => exact ⟨_, fun n => yields_declaration (yields_formula l n) n⟩
  | unitName => exact ⟨_, fun _ => yields_unitName⟩
  | unitNames => exact ⟨_, fun _ => yields_unitNames⟩
  | inclusion => exact ⟨_, fun _ => yields_inclusion⟩
  | annotatedUnit => exact ⟨_, yields_annotatedUnit⟩
  | entry => exact ⟨_, yields_entry⟩
  | entries => exact ⟨_, yields_entries⟩
  | problem => exact ⟨_, yields_problem⟩
  | announcements => exact ⟨_, fun _ => yields_announcements⟩
  | transcript => exact ⟨_, yields_transcript⟩
  | intro => exact ⟨_, fun _ => (yields_reserved Intro).labeled _⟩
  | info => exact ⟨_, yields_info⟩
  | infos => exact ⟨_, yields_infos⟩
  | expression => exact ⟨_, yields_expression⟩
  | parent => exact ⟨_, fun n => yields_parentRule (yields_source n)⟩
  | source => exact ⟨_, yields_source⟩
  | provenance => exact ⟨_, yields_provenance⟩

/-- Every production comes to an end at every place of a text, and all that it enters makes
    progress until then. The productions of units, terms, literals, clauses, formulas, sorts,
    sources and information take a character. -/
theorem progress (text : List Char) (start : Fin (text.length + 1)) :
    (∀ {α : Type} (P : Production α),
      (∃ outcome, Settles P.parser (.ofPosition text start) outcome ∧
        outcome.EndsIn text start P.takes) ∧
      ∀ stage, Relation.ReflTransGen (Stage.Enters rules) ⟨.call P, .ofPosition text start⟩ stage →
        stage.Progresses rules) ∧
    (entry.takes ∧ term.takes ∧ literal.takes ∧ clause.takes ∧ (∀ l, (formula l).takes) ∧
      sort.takes ∧ polySort.takes ∧ source.takes ∧ info.takes) := by
  have hstart : (start : Nat) ≤ text.length := Nat.le_of_lt_succ start.isLt
  have hin : (Rest.ofPosition text start).beyond = 0 := Nat.sub_eq_zero_of_le hstart
  refine ⟨fun P => ⟨?_, fun stage hstage => ?_⟩, rfl, rfl, rfl, rfl, fun _ => rfl, rfl, rfl, rfl,
    rfl⟩
  · have hcall : (Plan.call P).Descends ranking ⊤ P.takes := ⟨WithTop.coe_lt_top _, id⟩
    have hends : (Plan.call P).Terminates rules (.ofPosition text start) P.takes :=
      hcall.terminates descends hin
    rcases hends.settles with ⟨outcome, hsettles, hmoves⟩
    rcases P.exists_yields with ⟨W, hyields⟩
    exact ⟨outcome, hsettles, hsettles.endsIn hmoves hyields hstart⟩
  -- The limit says nothing, since a call may be anywhere at the start.
  · have hcall : Stage.Descends ranking ⟨.call P, .ofPosition text start⟩ :=
      ⟨hin, ⊤, false, Plan.descends_call_top P⟩
    exact (hcall.reaches descends hstage).1.progresses descends

/-- At a decimal whose exponent cannot be held there is neither a value nor a failure. -/
theorem number_neither_done_nor_failed :
    (∃ reason, Settles number.parser (.ofPosition "1e1000000000000000000".toList 0)
      (.aborted reason)) ∧
    ∀ n, (∀ value after,
        (number.parser n (.ofPosition "1e1000000000000000000".toList 0)).outcome ≠
          .done value after) ∧
      ∀ failure, (number.parser n (.ofPosition "1e1000000000000000000".toList 0)).outcome ≠
        .failed failure := by
  have hreason : (match (Grammar.number (.ofPosition "1e1000000000000000000".toList 0)).outcome with
      | .aborted reason => some reason
      | _ => none) = some .decimalOutOfRange := by decide +kernel
  have haborted : (Grammar.number (.ofPosition "1e1000000000000000000".toList 0)).outcome =
      .aborted .decimalOutOfRange := by
    rcases hout : (Grammar.number (.ofPosition "1e1000000000000000000".toList 0)).outcome with
      _ | _ | reason
    · exact absurd (hout ▸ hreason) nofun
    · exact absurd (hout ▸ hreason) nofun
    · rw [hout, Option.some.injEq] at hreason
      rw [hreason]
  refine ⟨⟨_, .const haborted nofun⟩, fun n => ⟨fun value after h => ?_, fun failure h => ?_⟩⟩
  · exact absurd (haborted.symm.trans h) nofun
  · exact absurd (haborted.symm.trans h) nofun

end Production

end Tptp
