import Tptp.Grammar.Document
import Tptp.Proofs.Composed.Basic
import Tptp.Proofs.Lexical.Number

/-!
# The Grammar Is Composed

Every production up to the entries of a document is composed.

Below an entry no production takes a full stop. So what holds of composed parsers
without the full stop holds of all that stands in a unit.

## Theorems

* `composed_term`, `composed_literal`, `composed_clause`: Terms and clauses.
* `composed_signature`: Types.
* `composed_formula`: Formulas of all languages.
* `composed_provenance`: Sources and useful information.
* `composed_unitParts`, `composed_includedFile`: What stands in an entry.
* `composed_entry`: Entries.
-/

namespace Tptp

namespace Grammar

open Reading Parser

variable {stops commas : Bool}

theorem composed_atom : Composed stops commas atom := by
  have hquoted : Composed stops commas (quoted '\x27') := .quoted (.inl rfl)
  have hword : Composed stops commas lowerWord := .word _ fun _ => Text.isWordChar_of_isLower
  refine .labeled _ ((hquoted.orElse hword).lexeme.bind fun text => ?_)
  split
  · exact .fail _
  · exact .build _

theorem composed_var : Composed stops commas var := by
  have hword : Composed stops commas upperWord := .word _ fun _ => Text.isWordChar_of_isUpper
  exact .labeled _ (hword.lexeme.bind fun _ => .build _)

theorem composed_distinctObject : Composed stops commas distinctObject :=
  .labeled _ ((Composed.quoted (.inr rfl)).lexeme.bind fun _ => .build _)

theorem composed_reserved (V : Type) [Vocabulary V] : Composed stops commas (reserved V) := by
  have hword : Composed stops commas lowerWord := .word _ fun _ => Text.isWordChar_of_isLower
  exact .labeled _ (hword.lexeme.map _)

theorem composed_name (V : Type) [Vocabulary V] : Composed stops commas (name V) :=
  .labeled _ (((Composed.sign _ (by decide)).bind fun _ => (composed_reserved V).map _).orElse
    (composed_atom.map _))

theorem composed_function : Composed stops commas function :=
  (composed_name DefinedFunction).labeled _

theorem composed_predicate : Composed stops commas predicate :=
  (composed_name DefinedPredicate).labeled _

theorem composed_sort : Composed stops commas sort :=
  (composed_name DefinedSort).labeled _

theorem composed_fraction : Composed stops commas fraction := by
  refine .slash .signedInteger (fun {text value left} h => ?_) fun numerator =>
    .bind .integer fun denominator => ?_
  · rcases relates_signedInteger.sound h with ⟨_, hleft, _, _, _, -, -, -, -, -, hsignificant⟩
    rw [show left = _ from congrArg Rest.chars hleft]
    exact hsignificant
  · split
    · exact .fail _
    · exact .build _

theorem composed_number : Composed stops commas number := by
  refine .labeled _ (composed_fraction.orElse (.bind (.lexeme .decimalLiteral) fun literal => ?_))
  split
  · exact .pure _
  · exact .abort _

/-- The production of terms that the next character selects. -/
def termBy (argument : Parser Term) : Option Char → Parser Term
  | some c =>
    if Text.isUpperCase c then Term.var <$> var
    else if c = '"' then Term.distinct <$> distinctObject
    else if Text.isDigitLike c || c = '+' || c = '-' then Term.number <$> number
    else functionTerm argument
  | none => functionTerm argument

/-- A term is told by its first character. -/
theorem termRule_eq (argument : Parser Term) :
    termRule argument = labeled "term" fun rest => termBy argument rest.chars.head? rest := by
  refine congrArg (labeled "term") (funext fun rest => ?_)
  rcases rest.chars with _ | ⟨c, chars⟩
  · rfl
  · simp only [List.head?_cons, termBy]
    split
    · rfl
    · split
      · rfl
      · split <;> rfl

theorem composed_termRule {argument : Parser Term} (h : Composed stops true argument) :
    Composed stops commas (termRule argument) := by
  have hfunction : Composed stops commas (functionTerm argument) :=
    composed_function.bind fun _ => h.arguments.bind fun _ => .pure _
  have hend : ∀ c ∈ closers false, Text.isUpperCase c = false ∧ c ≠ '"' ∧
      (Text.isDigitLike c || c = '+' || c = '-') = false :=
    List.all_iff_forall_prop.mp (by decide)
  rw [termRule_eq]
  have hlayout : ∀ c, Text.opensLayout c = true →
      termBy argument (some c) = functionTerm argument := by
    intro c hc
    rcases Text.not_isUpperCase_of_opensLayout hc with ⟨hupper, hdigit⟩
    have hne : ∀ d, Text.opensLayout d = false → c ≠ d := by
      rintro d hd rfl
      exact Bool.false_ne_true (hd.symm.trans hc)
    simp only [termBy, hupper, hdigit, hne '"' (by decide), hne '+' (by decide),
      hne '-' (by decide), decide_false, Bool.or_self, Bool.false_eq_true, if_false]
  refine .labeled _ (.look (fun _ c hc => ?_)
    (fun c d hc hd => (hlayout c hc).trans (hlayout d hd).symm) fun head => ?_)
  · rcases hend c (mem_closers hc) with ⟨hupper, hquote, hdigit⟩
    simp only [termBy, hupper, hquote, hdigit, Bool.false_eq_true, if_false]
  cases head with
  | none => exact hfunction
  | some c =>
      rw [termBy]
      split
      · exact composed_var.map _
      · split
        · exact composed_distinctObject.map _
        · split
          · exact composed_number.map _
          · exact hfunction

theorem composed_term_and_argument (allowance : Nat) :
    Composed stops commas (term allowance) ∧ Composed stops commas (termArgument allowance) := by
  induction allowance generalizing commas with
  | zero => exact ⟨.abort _, .abort _⟩
  | succ allowance ih => exact ⟨composed_termRule ih.2, ih.1.orParens ih.2⟩

theorem composed_term (allowance : Nat) : Composed stops commas (term allowance) :=
  (composed_term_and_argument allowance).1

theorem composed_termArgument (allowance : Nat) : Composed stops commas (termArgument allowance) :=
  (composed_term_and_argument allowance).2

theorem composed_literal (allowance : Nat) : Composed stops commas (literal allowance) := by
  have hterm : ∀ {commas}, Composed stops commas (termArgument allowance) :=
    composed_termArgument allowance
  have hsign : Composed stops commas equalitySign :=
    .labeled _ (.member fun s => by cases s <;> decide)
  refine .orElse (hterm.bind fun _ => hsign.bind fun _ => hterm.bind fun _ => .pure _)
    (.labeled _ ?_)
  exact composed_predicate.bind fun _ => hterm.arguments.bind fun _ => .pure _

theorem composed_signedLiteral (allowance : Nat) :
    Composed stops commas (signedLiteral allowance) := by
  refine .ifOpens (by decide) ?_ ((composed_literal allowance).bind fun _ => .pure _)
  exact (Composed.operator (by decide)).bind fun _ =>
    (Composed.optionalParens (fun _ => composed_literal) allowance).bind fun _ => .pure _

theorem composed_unitClause (allowance : Nat) : Composed stops commas (unitClause allowance) :=
  (composed_signedLiteral allowance).map _

theorem composed_disjunction {part : Parser Clause} (h : Composed stops commas part) :
    Composed stops commas (disjunction part) := by
  have hend : ∀ c ∈ closers false, decide (some c = some '|') = false :=
    List.all_iff_forall_prop.mp (by decide)
  have hbar : Composed stops commas (operator "|") := .operator (by decide)
  have hothers := (hbar.bind fun _ => h).repeatWhile (fun head => decide (head = some '|')) rfl
    (fun _ c hc => hend c (mem_closers hc)) (overlooksLayout_of_eq (by decide))
  exact h.bind fun _ => hothers.bind fun _ => .pure _

theorem composed_subclause (allowance : Nat) : Composed stops commas (subclause allowance) := by
  induction allowance generalizing commas with
  | zero => exact .abort _
  | succ allowance ih =>
      have hunit := @composed_unitClause stops commas allowance
      exact .ifOpens (by decide) (hunit.orElse (composed_disjunction ih).parens) (hunit.labeled _)

theorem composed_clause (allowance : Nat) : Composed stops commas (clause allowance) :=
  composed_disjunction (composed_subclause allowance)

theorem composed_polySort_and_argument (allowance : Nat) :
    Composed stops commas (polySort allowance) ∧
      Composed stops commas (polySortArgument allowance) := by
  induction allowance generalizing commas with
  | zero => exact ⟨.abort _, .abort _⟩
  | succ allowance ih =>
      refine ⟨.labeled _ (.orElse (composed_var.map _) ?_), ih.1.orParens ih.2⟩
      exact composed_sort.bind fun _ => ih.2.arguments.bind fun _ => .pure _

theorem composed_polySort (allowance : Nat) : Composed stops commas (polySort allowance) :=
  (composed_polySort_and_argument allowance).1

theorem composed_polySortArgument (allowance : Nat) :
    Composed stops commas (polySortArgument allowance) :=
  (composed_polySort_and_argument allowance).2

theorem composed_mapping {α : Type} {item : Parser α}
    (h : ∀ {commas}, Composed stops commas item) : Composed stops commas (mapping item) := by
  have hstar : Composed stops true (operator "*") := .operator (by decide)
  have hproduct : Composed stops commas (parens (sepBy1 item (operator "*"))) :=
    (h.sepBy1 (by decide) hstar).parens
  have harguments : Composed stops commas (mappingArguments item) :=
    ((h.map _).orElse hproduct).bind fun _ => (Composed.operator (by decide)).bind fun _ =>
      .pure _
  exact (harguments.withDefault _).bind fun _ => h.bind fun _ => .pure _

theorem composed_kind : Composed stops commas kind :=
  (Composed.token (by decide)).bind fun _ => .pure _

theorem composed_kindArgument (allowance : Nat) : Composed stops commas (kindArgument allowance) :=
  .optionalParens (fun _ _ => composed_kind) allowance

theorem composed_signature (allowance : Nat) : Composed stops commas (signature allowance) := by
  have hvariable : Composed stops true (boundSortVariable allowance) :=
    composed_var.bind fun _ => (Composed.operator (by decide)).bind fun _ =>
      (composed_kindArgument allowance).bind fun _ => .pure _
  have hquantifier : Composed stops commas (typeQuantifier allowance) :=
    (Composed.token (by decide)).bind fun _ => hvariable.bracketList1.bind fun _ =>
      (Composed.operator (by decide)).bind fun _ => .pure _
  have hmapping : Composed stops commas
      (optionalParens (fun n => mapping (polySortArgument n)) allowance) :=
    .optionalParens (fun _ n => composed_mapping (composed_polySortArgument n)) allowance
  exact .labeled _ ((hquantifier.withDefault _).bind fun _ => hmapping.bind fun _ => .pure _)

section

variable {F B : Type} {dialect : Dialect F B}

theorem composed_chain {unitary : Parser F} (h : Composed stops commas unitary) :
    Composed stops commas (chain dialect unitary) := by
  have hconnective : Composed stops commas (labeled "connective" (member Connective)) :=
    .labeled _ (.member fun c => by cases c <;> decide)
  have hconnection : Composed stops commas (connection unitary) :=
    hconnective.bind fun _ => h.bind fun _ => .pure _
  have hend : MissesUnless (fun _ => False) (connection unitary) [] := by
    refine .bind (.labeled _ (misses_lexeme (misses_named fun c hprefix => ?_)))
    have hnil := List.prefix_nil.mp hprefix
    revert hnil
    cases c <;> decide
  exact h.bind fun _ => (Composed.many hend hconnection).bind fun _ => .pure _

theorem composed_unitaryRule {allowance : Nat} {inner : Parser F}
    (hbinder : Composed stops true (dialect.binder allowance))
    (h : ∀ {commas}, Composed stops commas inner) :
    Composed stops commas (unitaryRule dialect allowance inner) := by
  have hnegation : Composed stops commas (negation dialect inner) :=
    (Composed.operator (by decide)).bind fun _ => h.bind fun _ => .pure _
  have hquantifier : Composed stops commas (labeled "quantifier" (member Quantifier)) :=
    .labeled _ (.member fun q => by cases q <;> decide)
  have hquantification : Composed stops commas (quantification dialect allowance inner) :=
    hquantifier.bind fun _ => hbinder.bracketList1.bind fun _ =>
      (Composed.operator (by decide)).bind fun _ => h.bind fun _ => .build _
  have hbasic : Composed stops commas (basicFormula dialect allowance inner) :=
    ((composed_literal allowance).map _).orParens (composed_chain h)
  refine .labeled _ (.ifOpens (by decide) hnegation (.ifOpens (by decide) hquantification
    (.ifOpens (by decide) hquantification ?_)))
  split
  · have hmodality : Composed stops commas (labeled "modality" (member Modality)) :=
      .labeled _ (.member fun m => by cases m <;> decide)
    exact .ifOpens (by decide) (hmodality.bind fun _ =>
      (Composed.operator (by decide)).bind fun _ => h.bind fun _ => .pure _) hbasic
  · exact hbasic

theorem composed_formulaOf (hbinder : ∀ n, Composed stops true (dialect.binder n))
    (allowance : Nat) : Composed stops commas (formulaOf dialect allowance) := by
  refine composed_chain ?_
  induction allowance generalizing commas with
  | zero => exact .abort _
  | succ allowance ih => exact composed_unitaryRule (hbinder allowance) ih

end

theorem composed_notedVariable {α : Type} {note : Nat → Parser α}
    (h : ∀ n, Composed stops commas (note n)) (allowance : Nat) :
    Composed stops commas (notedVariable note allowance) :=
  composed_var.bind fun _ => (h allowance).bind fun _ => .pure _

theorem composed_polyRange (allowance : Nat) : Composed stops commas (polyRange allowance) :=
  (composed_kind.map _).orElse ((composed_polySort allowance).map _)

theorem composed_sortedNote {α : Type} {sort : Nat → Parser α}
    (h : ∀ commas n, Composed stops commas (sort n)) (allowance : Nat) :
    Composed stops commas (sortedNote sort allowance) := by
  have hgiven : Composed stops commas (givenSort sort allowance) :=
    (Composed.operator (by decide)).bind fun _ => .optionalParens h allowance
  exact .labeled _ (hgiven.optional.map _)

theorem composed_plainSort (allowance : Nat) : Composed stops commas (plainSort allowance) := by
  cases allowance with
  | zero => exact .abort _
  | succ allowance => exact composed_sort

theorem composed_unsortedFormula (allowance : Nat) :
    Composed stops commas (unsortedFormula allowance) :=
  .labeled _ (composed_formulaOf (composed_notedVariable fun _ => .pure _) allowance)

theorem composed_monoFormula (allowance : Nat) : Composed stops commas (monoFormula allowance) :=
  .labeled _ (composed_formulaOf
    (composed_notedVariable (composed_sortedNote fun _ => composed_plainSort)) allowance)

theorem composed_polyFormula (allowance : Nat) : Composed stops commas (polyFormula allowance) :=
  .labeled _ (composed_formulaOf
    (composed_notedVariable (composed_sortedNote fun _ => composed_polyRange)) allowance)

theorem composed_modalFormula (allowance : Nat) : Composed stops commas (modalFormula allowance) :=
  composed_formulaOf (fun _ => composed_var) allowance

theorem composed_formula (language : Language) (allowance : Nat) :
    Composed stops commas (formula language allowance) := by
  cases language with
  | cnf => exact .labeled _ ((composed_clause allowance).map _)
  | fof => exact .labeled _ ((composed_unsortedFormula allowance).map _)
  | tff => exact .labeled _ ((composed_polyFormula allowance).map _)
  | qmf => exact .labeled _ ((composed_modalFormula allowance).map _)

theorem composed_formulaIn (language : Option Language) (allowance : Nat) :
    Composed stops commas (formulaIn language allowance) := by
  cases language with
  | none => exact .abort _
  | some language => exact composed_formula language allowance

theorem composed_unitName : Composed stops commas unitName :=
  .labeled _ ((composed_atom.map _).orElse (Composed.signedInteger.map _))

theorem composed_unitNames : Composed stops commas unitNames :=
  .labeled _ composed_unitName.bracketList1

theorem composed_language : Composed stops commas language :=
  .labeled _ (.member fun l => by cases l <;> decide)

theorem composed_expression (allowance : Nat) : Composed stops commas (expression allowance) := by
  have hformula : Composed stops commas (quotedFormula allowance) :=
    composed_language.bind fun language =>
      (Composed.optionalParens (fun _ => composed_formula language) allowance).parens.map _
  refine .labeled _ ((Composed.sign _ (by decide)).bind fun _ => .orElse ?_ hformula)
  exact .tagged (by decide) ((composed_termArgument allowance).map _)

theorem composed_infoRule {allowance : Nat} {info argument : Parser Info}
    (hi : Composed stops true info) (ha : Composed stops true argument) :
    Composed stops commas (infoRule allowance info argument) := by
  have hassumptions : Composed stops true assumptions := composed_unitNames.bind fun _ => .build _
  have hsymbols : Composed stops true newSymbols :=
    composed_atom.bind fun _ => (((composed_var.map _).orElse
      (composed_atom.map _)).bracketList.behindComma).bind fun _ => .pure _
  have hbinding : Composed stops true (binding allowance) :=
    composed_var.bind fun _ => (composed_expression allowance).behindComma.bind fun _ => .pure _
  have hgeneral : Composed stops commas (generalApplication argument) :=
    composed_atom.bind fun _ => ha.arguments.bind fun _ => .pure _
  refine .labeled _ (.orElse (.tagged (by decide) (composed_atom.map _)) ?_)
  refine .orElse (.tagged (by decide) (composed_atom.map _)) ?_
  refine .orElse (.tagged (by decide) ((composed_reserved Success).map _)) ?_
  refine .orElse (.tagged (by decide) hassumptions) ?_
  refine .orElse (.tagged (by decide) (composed_atom.map _)) ?_
  refine .orElse (.tagged (by decide) hsymbols) ?_
  refine .orElse (.tagged (by decide) hbinding) ?_
  refine .orElse ((composed_expression allowance).map _) ?_
  refine .orElse hgeneral (.orElse (composed_number.map _) ?_)
  exact .map (.labeled _ hi.bracketList) _

theorem composed_info_and_argument (allowance : Nat) :
    Composed stops commas (info allowance) ∧ Composed stops commas (infoArgument allowance) := by
  induction allowance generalizing commas with
  | zero => exact ⟨.abort _, .abort _⟩
  | succ allowance ih => exact ⟨composed_infoRule ih.1 ih.2, ih.1.orParens ih.2⟩

theorem composed_infos (allowance : Nat) : Composed stops commas (infos allowance) :=
  .labeled _ (composed_info_and_argument allowance).1.bracketList

theorem composed_parentRule {allowance : Nat} {source : Parser Source}
    (h : Composed stops commas source) : Composed stops commas (parentRule allowance source) := by
  refine .labeled _ (h.bind fun _ => .bind (.withDefault _ ?_) fun _ => .pure _)
  exact (Composed.operator (by decide)).bind fun _ => composed_infos allowance

theorem composed_intro : Composed stops commas intro :=
  (composed_reserved Intro).labeled _

/-- What stands in the parentheses of the keywords of sources. -/
theorem composed_file : Composed stops true file :=
  composed_atom.bind fun _ => composed_unitName.maybeComma.bind fun _ => .pure _

theorem composed_theory (allowance : Nat) : Composed stops true (theory allowance) :=
  composed_atom.bind fun _ => (composed_infos allowance).maybeComma.bind fun _ => .pure _

theorem composed_creator (allowance : Nat) : Composed stops true (creator allowance) :=
  composed_atom.bind fun _ => (composed_infos allowance).maybeComma.bind fun _ => .pure _

theorem composed_introduced (allowance : Nat) : Composed stops true (introduced allowance) :=
  composed_intro.bind fun _ =>
    (composed_infos allowance).maybeComma.bind fun _ => .pure _

theorem composed_inference {allowance : Nat} {parent : Parser Parent}
    (h : Composed stops true parent) : Composed stops true (inference allowance parent) :=
  composed_atom.bind fun _ => (composed_infos allowance).behindComma.bind fun _ =>
    h.bracketList.behindComma.bind fun _ => .pure _

theorem composed_sourceRule {allowance : Nat} {parent : Parser Parent}
    (h : Composed stops true parent) : Composed stops commas (sourceRule allowance parent) := by
  refine .labeled _ (.orElse ((Composed.token (by decide)).map _) ?_)
  refine .orElse (.tagged (by decide) composed_file) ?_
  refine .orElse (.tagged (by decide) (composed_theory allowance)) ?_
  refine .orElse (.tagged (by decide) (composed_creator allowance)) ?_
  refine .orElse (.tagged (by decide) (composed_introduced allowance)) ?_
  exact .orElse (.tagged (by decide) (composed_inference h)) (composed_unitName.map _)

theorem composed_source (allowance : Nat) : Composed stops commas (source allowance) := by
  induction allowance generalizing commas with
  | zero => exact .abort _
  | succ allowance ih => exact composed_sourceRule (composed_parentRule ih)

theorem composed_provenance (allowance : Nat) : Composed stops true (provenance allowance) :=
  .labeled _ ((composed_source allowance).bind fun _ =>
    (composed_infos allowance).maybeComma.bind fun _ => .pure _)

theorem composed_typeDeclaration (allowance : Nat) :
    Composed stops commas (typeDeclaration allowance) := by
  have harity : ∀ commas n, Composed stops commas (arity n) := fun _ n =>
    (composed_mapping (composed_kindArgument n)).bind fun _ => .pure _
  refine .labeled _ (.orElse (composed_atom.bind fun _ => (Composed.operator (by decide)).bind
    fun _ => (Composed.optionalParens harity allowance).bind fun _ => .build _) ?_)
  exact composed_atom.bind fun _ => (Composed.operator (by decide)).bind fun _ =>
    (Composed.optionalParens (fun _ => composed_signature) allowance).bind fun _ => .pure _

theorem composed_role : Composed stops commas role :=
  (composed_reserved Role).labeled _

theorem composed_declaration {formula : Parser Formula} (h : Composed stops true formula)
    (allowance : Nat) : Composed stops true (declaration formula allowance) := by
  refine .labeled _ (.orElse ((Composed.token (by decide)).bind fun _ => ?_) ?_)
  · exact (Composed.optionalParens (fun _ => composed_typeDeclaration) allowance).behindComma
  · exact composed_role.bind fun _ => h.behindComma.bind fun _ => .pure _

/-- What stands in the parentheses of a unit. -/
theorem composed_unitParts (language : Language) (allowance : Nat) :
    Composed stops true (unitParts language allowance) :=
  composed_unitName.bind fun _ =>
    (composed_declaration (composed_formula language allowance) allowance).behindComma.bind fun _ =>
      (composed_provenance allowance).maybeComma.bind fun _ => .pure _

/-- What stands in the parentheses of an inclusion. -/
theorem composed_includedFile : Composed stops true includedFile :=
  composed_atom.bind fun _ => composed_unitNames.maybeComma.bind fun _ => .build _

/-- Only entries take full stops. -/
theorem composed_inclusion : Composed true true inclusion :=
  .labeled _ ((Composed.tagged (by decide) composed_includedFile).bind fun _ =>
    (Composed.stop rfl).bind fun _ => .pure _)

theorem composed_annotatedUnit (allowance : Nat) : Composed true true (annotatedUnit allowance) :=
  .labeled _ (composed_language.bind fun language =>
    (composed_unitParts language allowance).parens.bind fun _ =>
      (Composed.stop rfl).bind fun _ => .pure _)

theorem composed_entry (allowance : Nat) : Composed true true (entry allowance) :=
  .labeled _ (.orElse (composed_inclusion.map _) ((composed_annotatedUnit allowance).map _))

theorem composed_entries (allowance : Nat) : Composed true true (entries allowance) := by
  have hsight : (fun rest : Rest => !rest.atEnd) = fun rest => rest.chars.head?.isSome := by
    funext rest
    rw [Rest.atEnd]
    cases rest.chars <;> rfl
  rw [entries, hsight]
  exact .repeatWhile Option.isSome rfl (fun hstops => absurd hstops.symm Bool.false_ne_true)
    (fun _ _ _ _ => rfl) (composed_entry allowance)

theorem composed_problem (allowance : Nat) : Composed true true (problem allowance) :=
  .labeled _ ((composed_entries allowance).map _)

end Grammar

end Tptp
