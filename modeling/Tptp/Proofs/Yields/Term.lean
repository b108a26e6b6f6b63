import Tptp.Grammar.Term
import Tptp.Proofs.Character
import Tptp.Proofs.WellFormed
import Tptp.Proofs.Yields.Token

/-!
# Well-Formed Names, Terms and Clauses

The productions of names, terms, literals and clauses yield well-formed values.

There is one fact for each production, and it follows the way the production is
written. Productions that contain themselves are treated by induction on the
allowance; a production that takes the parsers of its parts is treated for all
parts that yield well-formed values.

Where a production builds a value that may be refused, what its parts yield is
just what the check asks for, so nothing is ever refused. This holds of all runs
of the production, those of an alternative that is dropped later on included.

## Theorems

* `yields_build`: Building a value that is not refused.
* `yields_atom`, `yields_reserved`, `yields_name`: Names.
* `yields_number`: Numbers.
* `yields_term`, `yields_literal`, `yields_clause`: Terms, literals and clauses.
-/

namespace Tptp

namespace Grammar

open Reading Parser

/-- What is built has the property, and nothing is refused. -/
theorem yields_build {α : Type} {W : α → Prop} {built : Except Refusal α}
    (h : ∃ value, built = .ok value ∧ W value) : Yields (build built) W := by
  rcases h with ⟨value, rfl, hw⟩
  exact Yields.pure hw

/-- Words are made of word characters throughout, so they are printable. -/
theorem all_isWordChar_of_isLowerWord {word : List Char} (h : Text.isLowerWord word = true) :
    word.all Text.isWordChar = true := by
  cases word with
  | nil => rfl
  | cons c rest =>
      rw [Text.isLowerWord, Bool.and_eq_true] at h
      rw [List.all_cons, Text.isWordChar_of_isLower h.1, h.2, Bool.and_self]

theorem all_isPrintable_of_isLowerWord {word : List Char} (h : Text.isLowerWord word = true) :
    word.all Text.isPrintable = true := by
  have hword := all_isWordChar_of_isLowerWord h
  rw [List.all_eq_true] at hword ⊢
  exact fun c hc => Text.isPrintable_of_isWordChar (hword c hc)

theorem yields_atom : Yields atom Atom.WellFormed := by
  have hprintable : Yields (quoted '\x27' <|> lowerWord) fun text =>
      text.toList.all Text.isPrintable = true :=
    (yields_quoted (by decide)).orElse
      (yields_lowerWord.mono fun _ h => all_isPrintable_of_isLowerWord h)
  refine .labeled _ (hprintable.lexeme.bind fun text htext => ?_)
  split
  · exact .fail _
  · next hne =>
      have hvalid : Atom.isValid text = true := by
        rw [Atom.isValid, htext, Bool.and_true, Bool.not_eq_true', List.isEmpty_eq_false_iff]
        intro hnil
        exact hne (String.isEmpty_iff.mpr (String.toList_eq_nil_iff.mp hnil))
      exact yields_build ⟨⟨text⟩, by rw [Atom.ofText, if_pos hvalid], hvalid⟩

theorem yields_var : Yields var Var.WellFormed :=
  .labeled _ (yields_upperWord.lexeme.bind fun text htext =>
    yields_build ⟨⟨text⟩, by rw [Var.ofText, if_pos htext], htext⟩)

theorem yields_distinctObject : Yields distinctObject DistinctObject.WellFormed :=
  .labeled _ ((yields_quoted (by decide)).lexeme.bind fun text htext =>
    yields_build ⟨⟨text⟩, by rw [DistinctObject.ofText, DistinctObject.isValid, if_pos htext],
      htext⟩)

section

variable (V : Type) [Vocabulary V]

/-- A lower word is read as a standard word or as one that the vocabulary does not
    have. -/
theorem wellFormed_ofWord {text : String} (h : Text.isLowerWord text.toList = true) :
    (Reserved.ofWord (V := V) text).WellFormed := by
  rcases hw : Reserved.ofWord (V := V) text with value | word
  · trivial
  · have hword : word = text := by
      rw [Reserved.ofWord] at hw
      split at hw
      · exact absurd hw (by simp only [reduceCtorEq, not_false_eq_true])
      · exact (Reserved.extended.inj hw).symm
    rw [hword] at hw ⊢
    exact ⟨h, (Reserved.ofWord_eq_extended_iff text).mp hw⟩

theorem yields_reserved : Yields (reserved V) Reserved.WellFormed :=
  .labeled _ (yields_lowerWord.lexeme.map fun _ h => wellFormed_ofWord V h)

theorem yields_name : Yields (name V) Name.WellFormed := by
  refine .labeled _ (.orElse ?_ (yields_atom.map fun _ h => h))
  exact (yields_character _).bind fun _ _ => (yields_reserved V).map fun _ h => h

end

theorem yields_function : Yields function Name.WellFormed :=
  .labeled _ (yields_name _)

theorem yields_predicate : Yields predicate Name.WellFormed :=
  .labeled _ (yields_name _)

theorem yields_sort : Yields sort Name.WellFormed :=
  .labeled _ (yields_name _)

theorem yields_fraction : Yields fraction Number.WellFormed := by
  refine yields_signedInteger.bind fun numerator _ => ?_
  refine (yields_character _).bind fun _ _ => yields_integer.bind fun denominator _ => ?_
  split
  · exact .fail _
  · next hne =>
      have hpos : 0 < denominator := Nat.pos_of_ne_zero hne
      refine yields_build ⟨.rational numerator denominator, ?_, hpos⟩
      rw [Number.ofFraction, if_pos (Int.natCast_pos.mpr hpos), Int.toNat_natCast]

/-- A decimal is an integer or has an exponent, and is out of range for what stands
    at its place in the text. -/
theorem yields_decimalNumber : Yields decimalNumber Number.WellFormed := by
  have hvalue : ∀ literal : DecimalLiteral, (Number.ofDecimal literal.value).WellFormed := by
    intro literal
    rw [Number.ofDecimal]
    split
    · trivial
    · next hne => exact hne
  -- The literal that is out of range has to be traced back to where it was found.
  have hlexeme := yields_decimalLiteral.lexeme
  constructor
  · intro rest after value h
    rcases bind_done h with ⟨literal, middle, _, hnumber⟩
    split at hnumber
    · rw [outcome_pure, Outcome.done.injEq] at hnumber
      exact hnumber.1 ▸ hvalue literal
    · exact absurd hnumber (by simp only [outcome_abort, reduceCtorEq, not_false_eq_true])
  · intro rest after value h
    rcases bind_done h with ⟨literal, middle, hliteral, hnumber⟩
    split at hnumber
    · rw [outcome_pure, Outcome.done.injEq] at hnumber
      exact hnumber.2 ▸ hlexeme.suffix hliteral
    · exact absurd hnumber (by simp only [outcome_abort, reduceCtorEq, not_false_eq_true])
  · intro rest reason h
    rcases bind_aborted h with h | ⟨literal, middle, hliteral, hnumber⟩
    · exact hlexeme.excuse h
    · split at hnumber
      · exact absurd hnumber (by simp only [outcome_pure, reduceCtorEq, not_false_eq_true])
      · next hrange =>
          rcases bind_done hliteral with ⟨literal', _, hscan, hskip⟩
          rcases bind_done hskip with ⟨_, _, _, hpure⟩
          rw [outcome_pure, Outcome.done.injEq] at hpure
          rw [decimalLiteral] at hscan
          split at hscan
          · next found hfound =>
              rw [Outcome.done.injEq] at hscan
              rw [outcome_abort, Outcome.aborted.injEq] at hnumber
              rw [← hscan.1] at hpure
              rw [← hpure.1, Bool.not_eq_true] at hrange
              exact hnumber ▸ .decimal (List.suffix_refl _) hfound hrange
          · exact absurd hscan (by simp only [outcome_fail, reduceCtorEq, not_false_eq_true])

theorem yields_number : Yields number Number.WellFormed :=
  .labeled _ (yields_fraction.orElse yields_decimalNumber)

theorem yields_functionTerm {argument : Parser Term} (h : Yields argument Term.WellFormed) :
    Yields (functionTerm argument) Term.WellFormed :=
  yields_function.bind fun _ hname => h.arguments.bind fun _ hterms =>
    .pure (.function hname hterms)

/-- A term is what its first character says. -/
theorem yields_termRule {argument : Parser Term} (h : Yields argument Term.WellFormed) :
    Yields (termRule argument) Term.WellFormed := by
  refine .labeled _ (.of_outcome fun rest => ?_)
  split
  · split
    · exact ⟨_, yields_var.map fun _ h => .var h, rfl⟩
    · split
      · exact ⟨_, yields_distinctObject.map fun _ h => .distinct h, rfl⟩
      · split
        · exact ⟨_, yields_number.map fun _ h => .number h, rfl⟩
        · exact ⟨_, yields_functionTerm h, rfl⟩
  · exact ⟨_, yields_functionTerm h, rfl⟩

theorem yields_term_and_argument (allowance : Nat) :
    Yields (term allowance) Term.WellFormed ∧ Yields (termArgument allowance) Term.WellFormed := by
  induction allowance with
  | zero => exact ⟨.tooDeep, .tooDeep⟩
  | succ allowance ih => exact ⟨yields_termRule ih.2, ih.1.orParens ih.2⟩

theorem yields_term (allowance : Nat) : Yields (term allowance) Term.WellFormed :=
  (yields_term_and_argument allowance).1

theorem yields_termArgument (allowance : Nat) : Yields (termArgument allowance) Term.WellFormed :=
  (yields_term_and_argument allowance).2

theorem yields_literal (allowance : Nat) : Yields (literal allowance) Literal.WellFormed := by
  have hterm := yields_termArgument allowance
  refine .orElse ?_ (.labeled _ ?_)
  · refine hterm.bind fun left hleft => ?_
    refine ((yields_member Sign).labeled "eq").bind fun sign _ => ?_
    exact hterm.bind fun right hright => .pure ⟨hleft, hright⟩
  · exact yields_predicate.bind fun _ hname => hterm.arguments.bind fun _ hterms =>
      .pure ⟨hname, hterms⟩

theorem yields_signedLiteral (allowance : Nat) :
    Yields (signedLiteral allowance) fun l => l.literal.WellFormed := by
  refine .ifOpens _ ?_ ((yields_literal allowance).bind fun _ h => .pure h)
  refine (yields_operator _).bind fun _ _ => ?_
  exact (Yields.optionalParens yields_literal allowance).bind fun _ h => .pure h

theorem yields_unitClause (allowance : Nat) : Yields (unitClause allowance) Clause.WellFormed := by
  refine (yields_signedLiteral allowance).map fun l hl => ⟨List.cons_ne_nil _ _, ?_⟩
  intro k hk
  rw [List.mem_singleton.mp hk]
  exact hl

/-- A disjunction has the literals of its first part, so it is not empty. -/
theorem yields_disjunction {part : Parser Clause} (h : Yields part Clause.WellFormed) :
    Yields (disjunction part) Clause.WellFormed := by
  refine h.bind fun first hfirst => ?_
  refine (Yields.repeatWhile (p := operator "|" >>= fun _ => part) _
    ((yields_operator _).bind fun _ _ => h)).bind fun others hothers => .pure ⟨?_, ?_⟩
  · exact List.append_ne_nil_of_left_ne_nil hfirst.1 _
  · intro l hl
    rcases List.mem_append.mp hl with hl | hl
    · exact hfirst.2 l hl
    · rcases List.mem_flatMap.mp hl with ⟨clause, hclause, hl⟩
      exact (hothers clause hclause).2 l hl

theorem yields_subclause (allowance : Nat) : Yields (subclause allowance) Clause.WellFormed := by
  induction allowance with
  | zero => exact .tooDeep
  | succ allowance ih =>
      have hunit := yields_unitClause allowance
      exact .ifOpens _ (hunit.orElse (yields_disjunction ih).parens) (hunit.labeled _)

theorem yields_clause (allowance : Nat) : Yields (clause allowance) Clause.WellFormed :=
  yields_disjunction (yields_subclause allowance)

end Grammar

end Tptp
