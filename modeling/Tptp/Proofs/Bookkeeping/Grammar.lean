import Tptp.Grammar.Document
import Tptp.Proofs.Bookkeeping.Combinator
import Tptp.Proofs.Composed.Grammar

/-!
# The Grammar Is Assembled

Every production is put together from primitives, and so is whatever is put together from
productions and combinators.

The grammar is composed, and what is composed is assembled. Only the leading comments of a
transcript are not part of the language of entries, and they are gone through by hand.

## Main definitions

* `IsProduction`: The productions of the grammar.
* `IsComposite`: What the combinators make of primitives and productions.

## Theorems

* `Composed.isAssembled`: Composed parsers are assembled.
* `IsProduction.isAssembled`: Productions are assembled.
* `IsComposite.isAssembled`: So is all that is made of them.
-/

namespace Tptp

namespace Reading

variable {α β : Type}

namespace IsAssembled

variable {p q : Parser α}

theorem lift_map (f : α → β) (hp : IsAssembled (Parser.lift p)) :
    IsAssembled (Parser.lift (f <$> p)) :=
  hp.lift_bind fun _ => .pure _

theorem lift_labeled (label : String) (hp : IsAssembled (Parser.lift p)) :
    IsAssembled (Parser.lift (Parser.labeled label p)) :=
  hp.labeled label

theorem lift_orElse (hp : IsAssembled (Parser.lift p)) (hq : IsAssembled (Parser.lift q)) :
    IsAssembled (Parser.lift (p <|> q)) :=
  hp.orElse hq

theorem lift_ifOpens (c : Char) (hp : IsAssembled (Parser.lift p))
    (hq : IsAssembled (Parser.lift q)) : IsAssembled (Parser.lift (Parser.ifOpens c p q)) :=
  hp.ifOpens c hq

theorem lift_many (hp : IsAssembled (Parser.lift p)) :
    IsAssembled (Parser.lift (Parser.many p)) := by
  rw [Parser.lift_many]
  exact hp.many

theorem lift_repeatWhile (inSight : Option Char → Bool) (hp : IsAssembled (Parser.lift p)) :
    IsAssembled (Parser.lift (Parser.repeatWhile (fun rest => inSight rest.chars.head?) p)) := by
  rw [Parser.lift_repeatWhile]
  exact hp.repeatWhile inSight

theorem lift_build (value : Except Refusal α) : IsAssembled (Parser.lift (Parser.build value)) := by
  cases value with
  | ok value => exact .pure value
  | error refusal => exact primitive (.abort _)

theorem lift_between (opening closing : String) (hp : IsAssembled (Parser.lift p)) :
    IsAssembled (Parser.lift (Parser.between opening closing p)) :=
  (operator opening).lift_bind fun _ => hp.lift_bind fun _ =>
    (operator closing).lift_bind fun _ => .pure _

theorem lift_parens (hp : IsAssembled (Parser.lift p)) :
    IsAssembled (Parser.lift (Parser.parens p)) :=
  (hp.lift_between "(" ")").lift_labeled _

theorem lift_bracketList1 (hp : IsAssembled (Parser.lift p)) :
    IsAssembled (Parser.lift (Parser.bracketList1 p)) := by
  have hothers := ((operator ",").lift_bind fun _ => hp).lift_many
  have hitems : IsAssembled (Parser.lift (Parser.sepBy1 p (Parser.operator ","))) :=
    hp.lift_bind fun _ => hothers.lift_bind fun _ => .pure _
  exact ((hitems.lift_between "[" "]").lift_labeled _).lift_labeled _

end IsAssembled

/-- Composed parsers are assembled. -/
theorem Composed.isAssembled {stops commas : Bool} {p : Parser α} (h : Composed stops commas p) :
    IsAssembled (Parser.lift p) := by
  induction h with
  | pure a => exact .pure a
  | fail label => exact .primitive (.fail label)
  | abort reason => exact .primitive (.abort reason)
  | bind _ _ ihp ihnext => exact ihp.lift_bind ihnext
  | labeled label _ ih => exact ih.lift_labeled label
  | orElse _ _ ihp ihq => exact ihp.lift_orElse ihq
  | look _ _ _ ih => exact .inspect ih
  | many _ _ ih => exact ih.lift_many
  | repeatWhile inSight _ _ _ _ ih => exact ih.lift_repeatWhile inSight
  | layout => exact .primitive .skipLayout
  | sign label _ => exact .primitive (.sign label _)
  | comma => exact .operator ","
  | @enclosed _ _ _ opening closing _ _ ih => exact ih.lift_between opening closing
  | wholeWord label _ => exact .primitive (.wholeWord label _)
  | named _ => exact .primitive (.named _)
  | word label _ => exact .primitive (.word label _)
  | quoted _ => exact .primitive (.quoted _)
  | numeral => exact .primitive .numeral
  | decimalLiteral => exact .primitive .decimalLiteral
  | @behind _ _ _ _ c _ _ _ ihp ihq =>
      exact ((IsAssembled.primitive (.take 1)).lift_bind fun _ => ihp).lift_ifOpens c ihq
  | slash _ _ _ ihp ihnext =>
      exact ihp.lift_bind fun a => (IsAssembled.primitive (.sign _ _)).lift_bind fun _ =>
        ihnext a
  | stop _ => exact .operator "."

end Reading

namespace Grammar

open Reading Parser

/-- The productions of the language of entries. Those that contain themselves come with an
    allowance. -/
inductive IsProduction : {α : Type} → Parser α → Prop where
  | atom : IsProduction atom
  | var : IsProduction var
  | distinctObject : IsProduction distinctObject
  | reserved (V : Type) [Vocabulary V] : IsProduction (reserved V)
  | name (V : Type) [Vocabulary V] : IsProduction (name V)
  | function : IsProduction function
  | predicate : IsProduction predicate
  | sort : IsProduction sort
  | polySort (allowance : Nat) : IsProduction (polySort allowance)
  | kind : IsProduction kind
  | signature (allowance : Nat) : IsProduction (signature allowance)
  | number : IsProduction number
  | term (allowance : Nat) : IsProduction (term allowance)
  | literal (allowance : Nat) : IsProduction (literal allowance)
  | signedLiteral (allowance : Nat) : IsProduction (signedLiteral allowance)
  | subclause (allowance : Nat) : IsProduction (subclause allowance)
  | clause (allowance : Nat) : IsProduction (clause allowance)
  | polyRange (allowance : Nat) : IsProduction (polyRange allowance)
  | unsortedFormula (allowance : Nat) : IsProduction (unsortedFormula allowance)
  | monoFormula (allowance : Nat) : IsProduction (monoFormula allowance)
  | polyFormula (allowance : Nat) : IsProduction (polyFormula allowance)
  | modalFormula (allowance : Nat) : IsProduction (modalFormula allowance)
  | sortedFormula (allowance : Nat) : IsProduction (sortedFormula allowance)
  | formula (language : Option Language) (allowance : Nat) :
      IsProduction (formulaIn language allowance)
  | role : IsProduction role
  | language : IsProduction language
  | typeDeclaration (allowance : Nat) : IsProduction (typeDeclaration allowance)
  | declaration (language : Option Language) (allowance : Nat) :
      IsProduction (declaration (formulaIn language allowance) allowance)
  | unitName : IsProduction unitName
  | unitNames : IsProduction unitNames
  | intro : IsProduction intro
  | info (allowance : Nat) : IsProduction (info allowance)
  | infos (allowance : Nat) : IsProduction (infos allowance)
  | expression (allowance : Nat) : IsProduction (expression allowance)
  | source (allowance : Nat) : IsProduction (source allowance)
  | parent (allowance : Nat) : IsProduction (parent allowance)
  | provenance (allowance : Nat) : IsProduction (provenance allowance)
  | inclusion : IsProduction inclusion
  | annotatedUnit (allowance : Nat) : IsProduction (annotatedUnit allowance)
  | entry (allowance : Nat) : IsProduction (entry allowance)
  | entries (allowance : Nat) : IsProduction (entries allowance)
  | problem (allowance : Nat) : IsProduction (problem allowance)

variable {α : Type}

/-- Productions are composed. -/
theorem IsProduction.composed {p : Parser α} (h : IsProduction p) : Composed true true p := by
  cases h with
  | atom => exact composed_atom
  | var => exact composed_var
  | distinctObject => exact composed_distinctObject
  | reserved V => exact composed_reserved V
  | name V => exact composed_name V
  | function => exact composed_function
  | predicate => exact composed_predicate
  | sort => exact composed_sort
  | polySort allowance => exact composed_polySort allowance
  | kind => exact composed_kind
  | signature allowance => exact composed_signature allowance
  | number => exact composed_number
  | term allowance => exact composed_term allowance
  | literal allowance => exact composed_literal allowance
  | signedLiteral allowance => exact composed_signedLiteral allowance
  | subclause allowance => exact composed_subclause allowance
  | clause allowance => exact composed_clause allowance
  | polyRange allowance => exact composed_polyRange allowance
  | unsortedFormula allowance => exact composed_unsortedFormula allowance
  | monoFormula allowance => exact composed_monoFormula allowance
  | polyFormula allowance => exact composed_polyFormula allowance
  | modalFormula allowance => exact composed_modalFormula allowance
  | sortedFormula allowance => exact (composed_polyFormula allowance).map _
  | formula language allowance => exact composed_formulaIn language allowance
  | role => exact composed_role
  | language => exact composed_language
  | typeDeclaration allowance => exact composed_typeDeclaration allowance
  | declaration language allowance =>
      exact composed_declaration (composed_formulaIn language allowance) allowance
  | unitName => exact composed_unitName
  | unitNames => exact composed_unitNames
  | intro => exact composed_intro
  | info allowance => exact (composed_info_and_argument allowance).1
  | infos allowance => exact composed_infos allowance
  | expression allowance => exact composed_expression allowance
  | source allowance => exact composed_source allowance
  | parent allowance => exact composed_parentRule (composed_source allowance)
  | provenance allowance => exact composed_provenance allowance
  | inclusion => exact composed_inclusion
  | annotatedUnit allowance => exact composed_annotatedUnit allowance
  | entry allowance => exact composed_entry allowance
  | entries allowance => exact composed_entries allowance
  | problem allowance => exact composed_problem allowance

/-- Productions are assembled. -/
theorem IsProduction.isAssembled {p : Parser α} (h : IsProduction p) : IsAssembled (lift p) :=
  h.composed.isAssembled

section

variable {F B : Type} (dialect : Dialect F B)

theorem isAssembled_chain {unitary : Parser F} (h : IsAssembled (lift unitary)) :
    IsAssembled (lift (chain dialect unitary)) := by
  have hconnective : IsAssembled (lift (labeled "connective" (member Connective))) :=
    (IsAssembled.primitive (.named _)).lift_lexeme.lift_labeled _
  have hconnection : IsAssembled (lift (connection unitary)) :=
    hconnective.lift_bind fun _ => h.lift_bind fun _ => .pure _
  exact h.lift_bind fun _ => hconnection.lift_many.lift_bind fun _ => .pure _

theorem isAssembled_unitaryRule {allowance : Nat} {inner : Parser F}
    (hbinder : IsAssembled (lift (dialect.binder allowance))) (h : IsAssembled (lift inner)) :
    IsAssembled (lift (unitaryRule dialect allowance inner)) := by
  have hnegation : IsAssembled (lift (negation dialect inner)) :=
    (IsAssembled.operator "~").lift_bind fun _ => h.lift_bind fun _ => .pure _
  have hmember : ∀ V [Vocabulary V] (label : String),
      IsAssembled (lift (labeled label (member V))) :=
    fun V _ label => (IsAssembled.primitive (.named V)).lift_lexeme.lift_labeled label
  have hquantification : IsAssembled (lift (quantification dialect allowance inner)) :=
    (hmember Quantifier _).lift_bind fun _ => hbinder.lift_bracketList1.lift_bind fun _ =>
      (IsAssembled.operator ":").lift_bind fun _ => h.lift_bind fun _ => .lift_build _
  have hliteral : IsAssembled (lift (dialect.atomic <$> literal allowance)) :=
    (IsProduction.literal allowance).isAssembled.lift_map _
  have hbasic : IsAssembled (lift (basicFormula dialect allowance inner)) :=
    (hliteral.lift_orElse (isAssembled_chain dialect h).lift_parens).lift_ifOpens _ hliteral
  refine .lift_labeled _ (hnegation.lift_ifOpens _ (hquantification.lift_ifOpens _
    (hquantification.lift_ifOpens _ ?_)))
  split
  · exact ((hmember Modality _).lift_bind fun _ => (IsAssembled.operator ":").lift_bind fun _ =>
      h.lift_bind fun _ => .pure _).lift_ifOpens _ hbasic
  · exact hbasic

theorem isAssembled_formulaOf (hbinder : ∀ n, IsAssembled (lift (dialect.binder n)))
    (allowance : Nat) : IsAssembled (lift (formulaOf dialect allowance)) := by
  refine isAssembled_chain dialect ?_
  induction allowance with
  | zero => exact .primitive (.abort _)
  | succ allowance ih => exact isAssembled_unitaryRule dialect (hbinder allowance) ih

end

/-- The leading comments of a transcript. -/
theorem isAssembled_announcements : IsAssembled (lift announcements) := by
  have hannouncement : IsAssembled (lift announcement) :=
    (IsAssembled.primitive (.take 1)).lift_bind fun _ =>
      (IsAssembled.primitive .restOfLine).lift_bind fun _ =>
        (IsAssembled.primitive .skipBlanks).lift_bind fun _ => .pure _
  have hlines := hannouncement.lift_repeatWhile fun head => decide (head = some '%')
  exact (IsAssembled.primitive .skipBlanks).lift_bind fun _ => hlines.lift_bind fun _ => .pure _

theorem isAssembled_transcript (allowance : Nat) : IsAssembled (lift (transcript allowance)) := by
  have hentries := (IsProduction.entries allowance).isAssembled
  exact .lift_labeled _ (isAssembled_announcements.lift_bind fun _ =>
    (IsAssembled.primitive .skipLayout).lift_bind fun _ => hentries.lift_bind fun _ => .pure _)

end Grammar

namespace Reading

open Grammar

/-- The parser is made of primitives and productions by the combinators. -/
inductive IsComposite : {α : Type} → ParserOn Session α → Prop where
  | primitive {α : Type} {p : Parser α} (h : IsPrimitive p) : IsComposite (Parser.lift p)
  | production {α : Type} {p : Parser α} (h : IsProduction p) : IsComposite (Parser.lift p)
  | announcements : IsComposite (Parser.lift announcements)
  | transcript (allowance : Nat) : IsComposite (Parser.lift (transcript allowance))
  | pure {α : Type} (value : α) : IsComposite (pure value)
  | bind {α β : Type} {p : ParserOn Session α} {next : α → ParserOn Session β}
      (hp : IsComposite p) (hnext : ∀ a, IsComposite (next a)) : IsComposite (p >>= next)
  | labeled {α : Type} {p : ParserOn Session α} (label : String) (hp : IsComposite p) :
      IsComposite (Parser.labeled label p)
  | choice {α : Type} {others : List (ParserOn Session α)} (h : ∀ p ∈ others, IsComposite p) :
      IsComposite (Parser.choice others)
  | optional {α : Type} {p : ParserOn Session α} (hp : IsComposite p) :
      IsComposite (Parser.optional p)
  | withDefault {α : Type} {p : ParserOn Session α} (value : α) (hp : IsComposite p) :
      IsComposite (Parser.withDefault value p)
  | sepBy1 {α β : Type} {p : ParserOn Session α} {separator : ParserOn Session β}
      (hp : IsComposite p) (hseparator : IsComposite separator) :
      IsComposite (Parser.sepBy1 p separator)
  | sepBy {α β : Type} {p : ParserOn Session α} {separator : ParserOn Session β}
      (hp : IsComposite p) (hseparator : IsComposite separator) :
      IsComposite (Parser.sepBy p separator)
  | repeatWhile {α : Type} {p : ParserOn Session α} (inSight : Option Char → Bool)
      (hp : IsComposite p) :
      IsComposite (Parser.repeatWhile (fun rest => inSight rest.chars.head?) p)
  | ifOpens {α : Type} {p q : ParserOn Session α} (c : Char) (hp : IsComposite p)
      (hq : IsComposite q) : IsComposite (Parser.ifOpens c p q)
  | lexeme {α : Type} {p : ParserOn Session α} (hp : IsComposite p) :
      IsComposite (Parser.lexeme p)
  | signed {α : Type} {p : ParserOn Session α} (negative? : α → Option α) (hp : IsComposite p) :
      IsComposite (Parser.signed negative? p)
  | comma {α : Type} {p : ParserOn Session α} (hp : IsComposite p) : IsComposite (Parser.comma p)
  | maybeComma {α : Type} {p : ParserOn Session α} (hp : IsComposite p) :
      IsComposite (Parser.maybeComma p)
  | parens {α : Type} {p : ParserOn Session α} (hp : IsComposite p) :
      IsComposite (Parser.parens p)
  | optionalParens {α : Type} {p : Nat → ParserOn Session α} (hp : ∀ n, IsComposite (p n))
      (allowance : Nat) : IsComposite (Parser.optionalParens p allowance)
  | brackets {α : Type} {p : ParserOn Session α} (hp : IsComposite p) :
      IsComposite (Parser.brackets p)
  | bracketList {α : Type} {p : ParserOn Session α} (hp : IsComposite p) :
      IsComposite (Parser.bracketList p)
  | bracketList1 {α : Type} {p : ParserOn Session α} (hp : IsComposite p) :
      IsComposite (Parser.bracketList1 p)
  | arguments {α : Type} {p : ParserOn Session α} (hp : IsComposite p) :
      IsComposite (Parser.arguments p)
  | tagged {α : Type} {p : ParserOn Session α} (tag : String) (hp : IsComposite p) :
      IsComposite (Parser.tagged tag p)
  | mapping {α : Type} {p : ParserOn Session α} (hp : IsComposite p) :
      IsComposite (Grammar.mapping p)
  | sortedNote {α : Type} {sort : Nat → ParserOn Session α} (hsort : ∀ n, IsComposite (sort n))
      (allowance : Nat) : IsComposite (Grammar.sortedNote sort allowance)
  | chain {F B : Type} (dialect : Dialect F B) {unitary : Parser F}
      (h : IsComposite (Parser.lift unitary)) : IsComposite (Parser.lift (chain dialect unitary))
  | unitary {F B : Type} (dialect : Dialect F B) {allowance : Nat} {inner : Parser F}
      (hbinder : IsComposite (Parser.lift (dialect.binder allowance)))
      (h : IsComposite (Parser.lift inner)) :
      IsComposite (Parser.lift (unitaryRule dialect allowance inner))
  | formulaOf {F B : Type} (dialect : Dialect F B)
      (hbinder : ∀ n, IsComposite (Parser.lift (dialect.binder n))) (allowance : Nat) :
      IsComposite (Parser.lift (formulaOf dialect allowance))

/-- What is made of primitives and productions is assembled. -/
theorem IsComposite.isAssembled {p : ParserOn Session α} (h : IsComposite p) : IsAssembled p := by
  induction h with
  | primitive h => exact .primitive h
  | production h => exact h.isAssembled
  | announcements => exact isAssembled_announcements
  | transcript allowance => exact isAssembled_transcript allowance
  | pure value => exact .pure value
  | bind _ _ ihp ihnext => exact ihp.bind ihnext
  | labeled label _ ih => exact ih.labeled label
  | choice _ ih => exact .choice ih
  | optional _ ih => exact ih.optional
  | withDefault value _ ih => exact ih.withDefault value
  | sepBy1 _ _ ihp ihseparator => exact ihp.sepBy1 ihseparator
  | sepBy _ _ ihp ihseparator => exact ihp.sepBy ihseparator
  | repeatWhile inSight _ ih => exact ih.repeatWhile inSight
  | ifOpens c _ _ ihp ihq => exact ihp.ifOpens c ihq
  | lexeme _ ih => exact ih.lexeme
  | signed negative? _ ih => exact ih.signed negative?
  | comma _ ih => exact ih.comma
  | maybeComma _ ih => exact ih.maybeComma
  | parens _ ih => exact ih.parens
  | optionalParens _ allowance ih => exact .optionalParens ih allowance
  | brackets _ ih => exact ih.brackets
  | bracketList _ ih => exact ih.bracketList
  | bracketList1 _ ih => exact ih.bracketList1
  | arguments _ ih => exact ih.arguments
  | tagged tag _ ih => exact ih.tagged tag
  | mapping _ ih => exact ih.mapping
  | sortedNote _ allowance ih => exact .sortedNote ih allowance
  | chain dialect _ ih => exact isAssembled_chain dialect ih
  | unitary dialect _ _ ihbinder ih => exact isAssembled_unitaryRule dialect ihbinder ih
  | formulaOf dialect _ allowance ih => exact isAssembled_formulaOf dialect ih allowance

end Reading

end Tptp
