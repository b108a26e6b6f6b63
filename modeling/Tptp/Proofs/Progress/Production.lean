import Tptp.Grammar.Document
import Tptp.Proofs.Progress.Combinator

/-!
# Plans of Productions

The grammar as data.

Every production has a name, with the productions that it is given as arguments, and a plan in
which it calls others by their names. The plan is the text of the production. That it is the
right text is not a matter of taste: the parser of a production does what the plan says, with
the parsers of what it calls.

Some productions spend a unit of the allowance for nesting, the others hand it on. This is
all that the allowance has to do with a plan.

## Main definitions

* `Production`: The productions of the grammar.
* `Production.parser`, `Production.plan`: Their parsers and their plans.
* `Production.rules`: The grammar as rules.

## Theorems

* `Production.unfolds`: Parsers do what plans say.
-/

namespace Tptp

open Reading

/-- The kinds of formulas, which differ in what a quantifier lists. -/
inductive FormulaKind : Type → Type → Type where
  | unsorted : FormulaKind UnsortedFormula (Var × Unsorted)
  | mono : FormulaKind MonoFormula (Var × Sorted SortName)
  | poly : FormulaKind PolyFormula (Var × Sorted (PolyRange SortName))
  | modal : FormulaKind ModalFormula Var

/-- The productions of the grammar. -/
inductive Production : Type → Type 1 where
  | atom : Production Atom
  | var : Production Var
  | distinctObject : Production DistinctObject
  | reserved (V : Type) [Vocabulary V] : Production (Reserved V)
  | name (V : Type) [Vocabulary V] : Production (Name V)
  | function : Production (Name DefinedFunction)
  | predicate : Production (Name DefinedPredicate)
  | sort : Production SortName
  /-- An item in any number of parentheses. -/
  | optionalParens {α : Type} (item : Production α) : Production α
  | polySort : Production (PolySort SortName)
  | kind : Production Unit
  /-- Argument sorts and a result sort. -/
  | polyMapping : Production (List (PolySort SortName) × PolySort SortName)
  | arity : Production Nat
  | signature : Production Signature
  | number : Production Number
  | term : Production Term
  | literal : Production Literal
  | signedLiteral : Production SignedLiteral
  | subclause : Production Clause
  | clause : Production Clause
  | unitary {F B : Type} (which : FormulaKind F B) : Production F
  | formulaOf {F B : Type} (which : FormulaKind F B) : Production F
  | unsortedNote : Production Unsorted
  | sortedNote {α : Type} (item : Production α) : Production (Sorted α)
  | plainSort : Production SortName
  | polyRange : Production (PolyRange SortName)
  | unsortedFormula : Production UnsortedFormula
  | monoFormula : Production MonoFormula
  | polyFormula : Production PolyFormula
  | modalFormula : Production ModalFormula
  | sortedFormula : Production Formula
  | formula (language : Language) : Production Formula
  | role : Production (Reserved Role)
  | language : Production Language
  | typeDeclaration : Production Declaration
  | declaration (language : Language) : Production Declaration
  | unitName : Production UnitName
  | unitNames : Production (List UnitName)
  | inclusion : Production Include
  | annotatedUnit : Production AnnotatedUnit
  | entry : Production Entry
  | entries : Production (List Entry)
  | problem : Production Problem
  | announcements : Production Szs.Summary
  | transcript : Production Transcript
  | intro : Production (Reserved Intro)
  | info : Production Info
  | infos : Production (List Info)
  | expression : Production Expression
  | parent : Production Parent
  | source : Production Source
  | provenance : Production Provenance

/-- The formulas of a kind. -/
def FormulaKind.dialect {F B : Type} : FormulaKind F B → Grammar.Dialect F B
  | .unsorted => Grammar.firstOrder Grammar.unsortedNote
  | .mono => Grammar.firstOrder (Grammar.sortedNote Grammar.plainSort)
  | .poly => Grammar.firstOrder (Grammar.sortedNote Grammar.polyRange)
  | .modal => Grammar.modalLogic

namespace Production

/-- The parser of a production. -/
def parser : {α : Type} → Production α → Nat → Parser α
  | _, .atom, _ => Grammar.atom
  | _, .var, _ => Grammar.var
  | _, .distinctObject, _ => Grammar.distinctObject
  | _, @reserved V _, _ => Grammar.reserved V
  | _, @name V _, _ => Grammar.name V
  | _, .function, _ => Grammar.function
  | _, .predicate, _ => Grammar.predicate
  | _, .sort, _ => Grammar.sort
  | _, .optionalParens item, n => Parser.optionalParens item.parser n
  | _, .polySort, n => Grammar.polySort n
  | _, .kind, _ => Grammar.kind
  | _, .polyMapping, n => Grammar.mapping (Grammar.polySortArgument n)
  | _, .arity, n => Grammar.arity n
  | _, .signature, n => Grammar.signature n
  | _, .number, _ => Grammar.number
  | _, .term, n => Grammar.term n
  | _, .literal, n => Grammar.literal n
  | _, .signedLiteral, n => Grammar.signedLiteral n
  | _, .subclause, n => Grammar.subclause n
  | _, .clause, n => Grammar.clause n
  | _, .unitary which, n => Grammar.unitary which.dialect n
  | _, .formulaOf which, n => Grammar.formulaOf which.dialect n
  | _, .unsortedNote, n => Grammar.unsortedNote n
  | _, .sortedNote item, n => Grammar.sortedNote item.parser n
  | _, .plainSort, n => Grammar.plainSort n
  | _, .polyRange, n => Grammar.polyRange n
  | _, .unsortedFormula, n => Grammar.unsortedFormula n
  | _, .monoFormula, n => Grammar.monoFormula n
  | _, .polyFormula, n => Grammar.polyFormula n
  | _, .modalFormula, n => Grammar.modalFormula n
  | _, .sortedFormula, n => Grammar.sortedFormula n
  | _, .formula l, n => Grammar.formula l n
  | _, .role, _ => Grammar.role
  | _, .language, _ => Grammar.language
  | _, .typeDeclaration, n => Grammar.typeDeclaration n
  | _, .declaration l, n => Grammar.declaration (Grammar.formula l n) n
  | _, .unitName, _ => Grammar.unitName
  | _, .unitNames, _ => Grammar.unitNames
  | _, .inclusion, _ => Grammar.inclusion
  | _, .annotatedUnit, n => Grammar.annotatedUnit n
  | _, .entry, n => Grammar.entry n
  | _, .entries, n => Grammar.entries n
  | _, .problem, n => Grammar.problem n
  | _, .announcements, _ => Grammar.announcements
  | _, .transcript, n => Grammar.transcript n
  | _, .intro, _ => Grammar.intro
  | _, .info, n => Grammar.info n
  | _, .infos, n => Grammar.infos n
  | _, .expression, n => Grammar.expression n
  | _, .parent, n => Grammar.parent n
  | _, .source, n => Grammar.source n
  | _, .provenance, n => Grammar.provenance n

open Reading.Plan

/-- A text that must not be empty, as an atom. -/
def nonEmptyAtom (text : String) : Plan Production Atom :=
  .step (if text.isEmpty then Parser.fail "non-empty atom" else Parser.build (Atom.ofText text))
    (isStep_ite (isStep_fail _) (isStep_build _))

/-- A reserved word behind a dollar sign. -/
def reservedName (V : Type) [Vocabulary V] : Plan Production (Name V) := do
  let _ ← character "$"
  Name.reserved <$> call (.reserved V)

/-- A name and the arguments behind it. -/
def application {α β γ : Type} (make : α → List β → γ) (head : Production α)
    (argument : Production β) : Plan Production γ := do
  let name ← call head
  let values ← arguments (call (.optionalParens argument))
  return make name values

/-- The argument sorts of a mapping and the arrow behind them. -/
def mappingArguments {α : Type} (item : Plan Production α) : Plan Production (List α) := do
  let sorts ← (fun sort => [sort]) <$> item <|> parens (sepBy1 item (operator "*"))
  let _ ← operator ">"
  return sorts

/-- Argument sorts, possibly none, and a result sort. -/
def mapping {α : Type} (item : Plan Production α) : Plan Production (List α × α) := do
  let sorts ← withDefault [] (mappingArguments item)
  let result ← item
  return (sorts, result)

/-- A sort variable as a type binds it. -/
def boundSortVariable : Plan Production Var := do
  let v ← call .var
  let _ ← operator ":"
  call (.optionalParens .kind)
  return v

/-- The quantifier of a type. -/
def typeQuantifier : Plan Production (List Var) := do
  let _ ← token "!>"
  let bound ← bracketList1 boundSortVariable
  let _ ← operator ":"
  return bound

/-- A fraction of two integers. -/
def fraction : Plan Production Number := do
  let numerator ← signedInteger
  let _ ← character "/"
  let denominator ← integer
  .step (if denominator = 0 then Parser.fail "positive denominator"
      else Parser.build (Number.ofFraction numerator denominator))
    (isStep_ite (isStep_fail _) (isStep_build _))

/-- A decimal number. -/
def decimalNumber : Plan Production Number := do
  let literal ← lexeme (.step Parser.decimalLiteral isStep_decimalLiteral)
  .step (if literal.value.isRepresentable then pure (.ofDecimal literal.value)
      else Parser.abort .decimalOutOfRange)
    (isStep_ite (isStep_pure _) (isStep_abort nofun))

/-- An equation or a disequation. -/
def equality : Plan Production Literal := do
  let left ← call (.optionalParens .term)
  let sign ← labeled "eq" (member Sign)
  let right ← call (.optionalParens .term)
  return .equality left sign right

/-- A clause of one literal. -/
def unitClause : Plan Production Clause :=
  Clause.unit <$> call .signedLiteral

section

variable {F B : Type} (which : FormulaKind F B)

/-- A negation. -/
def negation : Plan Production F := do
  let _ ← operator "~"
  let formula ← call (.unitary which)
  return which.dialect.negated formula

/-- A bound variable with a note behind it. -/
def notedVariable {α : Type} (note : Production α) : Plan Production (Var × α) := do
  let v ← call .var
  let value ← call note
  return (v, value)

/-- An item in the list of a quantifier. -/
def binder : {F B : Type} → FormulaKind F B → Plan Production B
  | _, _, .unsorted => notedVariable .unsortedNote
  | _, _, .mono => notedVariable (.sortedNote .plainSort)
  | _, _, .poly => notedVariable (.sortedNote .polyRange)
  | _, _, .modal => call .var

/-- A quantifier, what it lists, and the formula it governs. -/
def quantification : Plan Production F := do
  let quantifier ← labeled "quantifier" (member Quantifier)
  let bound ← bracketList1 (binder which)
  let _ ← operator ":"
  let formula ← call (.unitary which)
  build (which.dialect.quantified quantifier bound formula)

/-- A modal operator and the formula it governs. -/
def modalization (apply : Modality → F → F) : Plan Production F := do
  let modality ← labeled "modality" (member Modality)
  let _ ← operator ":"
  let formula ← call (.unitary which)
  return apply modality formula

/-- A literal, or a formula between parentheses. -/
def basicFormula : Plan Production F :=
  orParens (which.dialect.atomic <$> call .literal) (call (.formulaOf which))

/-- A connective and the unitary formula behind it. -/
def connection : Plan Production (Connective × F) := do
  let connective ← labeled "connective" (member Connective)
  let formula ← call (.unitary which)
  return (connective, formula)

end

/-- The declaration of a sort constructor. -/
def sortDeclaration : Plan Production Declaration := do
  let name ← call .atom
  let _ ← operator ":"
  let arity ← call (.optionalParens .arity)
  build (Declaration.ofArity name arity)

/-- The declaration of the type of a symbol. -/
def typing : Plan Production Declaration := do
  let name ← call .atom
  let _ ← operator ":"
  let signature ← call (.optionalParens .signature)
  return .typing name signature

/-- A declaration behind the role of types. -/
def typedDeclaration : Plan Production Declaration := do
  let _ ← token "type"
  comma (call (.optionalParens .typeDeclaration))

/-- A formula behind its role. -/
def formulaDeclaration (l : Language) : Plan Production Declaration := do
  let role ← call .role
  let statement ← comma (call (.formula l))
  return .formula role statement

/-- The file of an inclusion, and the selection of its units. -/
def includedFile : Plan Production Include := do
  let file ← call .atom
  let selection ← maybeComma (call .unitNames)
  build (Include.ofSelection file selection)

/-- The parts of a unit, given its language. -/
def unitParts (l : Language) : Plan Production AnnotatedUnit := do
  let name ← call .unitName
  let declaration ← comma (call (.declaration l))
  let provenance ← maybeComma (call .provenance)
  return ⟨name, declaration, provenance⟩

/-- What a comment line announces. -/
def announcement : Plan Production Szs.Summary := do
  let _ ← character "%"
  let line ← step Parser.restOfLine isStep_restOfLine
  step Parser.skipBlanks isStep_skipBlanks
  return (Szs.Summary.ofComment? line).getD .empty

/-- A quoted formula behind the name of its language. -/
def quotedFormula : Plan Production Expression := do
  let language ← call .language
  Expression.formula <$> parens (call (.optionalParens (.formula language)))

/-- The units that are assumed. -/
def assumptions : Plan Production Info := do
  let names ← call .unitNames
  build (Info.ofAssumptions names)

/-- The kind of a step that made symbols up, and the symbols. -/
def newSymbols : Plan Production Info := do
  let name ← call .atom
  let symbols ← comma (bracketList (Symbol.var <$> call .var <|> Symbol.atom <$> call .atom))
  return .newSymbols name symbols

/-- A variable and what it was bound to. -/
def binding : Plan Production Info := do
  let v ← call .var
  let value ← comma (call .expression)
  return .bind v value

/-- An item, with another one behind a comma if there is one. -/
def withMore {α β γ : Type} (make : α → Option β → γ) (item : Production α)
    (more : Production β) : Plan Production γ := do
  let value ← call item
  let other ← maybeComma (call more)
  return make value other

/-- The inference that made a unit. -/
def inference : Plan Production Source := do
  let rule ← call .atom
  let infos ← comma (call .infos)
  let parents ← comma (bracketList (call .parent))
  return .inference rule infos parents

/-- The plan of a production. -/
def plan : {α : Type} → Production α → Plan Production α
  | _, .atom => labeled "atom" do
      let text ← lexeme (quoted '\x27' <|> lowerWord)
      nonEmptyAtom text
  | _, .var => labeled "var" do
      let text ← lexeme upperWord
      build (Var.ofText text)
  | _, .distinctObject => labeled "distinct object" do
      let text ← lexeme (quoted '"')
      build (DistinctObject.ofText text)
  | _, @reserved V _ => labeled "reserved" (Reserved.ofWord <$> lexeme lowerWord)
  | _, @name V _ => labeled "name" (reservedName V <|> Name.user <$> call .atom)
  | _, .function => labeled "function" (call (.name DefinedFunction))
  | _, .predicate => labeled "predicate" (call (.name DefinedPredicate))
  | _, .sort => labeled "sort" (call (.name DefinedSort))
  | _, .optionalParens item => orParens (call item) (call (.optionalParens item))
  | _, .polySort => labeled "tff1 sort" <|
      PolySort.var <$> call .var <|> application .application .sort .polySort
  | _, .kind => do
      let _ ← token "$tType"
  | _, .polyMapping => mapping (call (.optionalParens .polySort))
  | _, .arity => do
      let (arguments, _) ← mapping (call (.optionalParens .kind))
      return arguments.length
  | _, .signature => labeled "type" do
      let bound ← withDefault [] typeQuantifier
      let (sorts, result) ← call (.optionalParens .polyMapping)
      return .ofSorts bound sorts result
  | _, .number => labeled "number" (fraction <|> decimalNumber)
  | _, .term => labeled "term" <|
      look (fun rest => rest.chars.head?.any Text.isUpperCase) (Term.var <$> call .var) <|
      look (fun rest => rest.opensWith '"') (Term.distinct <$> call .distinctObject) <|
      look (fun rest => rest.chars.head?.any fun c => Text.isDigitLike c || c = '+' || c = '-')
        (Term.number <$> call .number) (application .function .function .term)
  | _, .literal => equality <|>
      labeled "literal" (application .predicate .predicate .term)
  | _, .signedLiteral => ifOpens '~'
      (do
        let _ ← operator "~"
        let literal ← call (.optionalParens .literal)
        return ⟨.negative, literal⟩)
      (do
        let literal ← call .literal
        return ⟨.positive, literal⟩)
  | _, .subclause => ifOpens '(' (unitClause <|> parens (call .clause))
      (labeled "subclause" unitClause)
  | _, .clause => do
      let first ← call .subclause
      let others ← repeatWhile (·.opensWith '|') do
        let _ ← operator "|"
        call .subclause
      return first.appendAll others
  | _, .unitary which => labeled "unitary formula" <|
      ifOpens '~' (negation which) <|
      ifOpens '!' (quantification which) <|
      ifOpens '?' (quantification which) <|
      match which.dialect.modal with
      | some apply => ifOpens '#' (modalization which apply) (basicFormula which)
      | none => basicFormula which
  | _, .formulaOf which => do
      let first ← call (.unitary which)
      let others ← many (connection which)
      return which.dialect.groupRight first others
  | _, .unsortedNote => .pure .unsorted
  | _, .sortedNote item => labeled "sorted" <| Sorted.mk <$> optional do
      let _ ← operator ":"
      call (.optionalParens item)
  | _, .plainSort => call .sort
  | _, .polyRange => (fun _ => .sorts) <$> call .kind <|> PolyRange.members <$> call .polySort
  | _, .unsortedFormula => labeled "fof" (call (.formulaOf .unsorted))
  | _, .monoFormula => labeled "tff0" (call (.formulaOf .mono))
  | _, .polyFormula => labeled "tff1" (call (.formulaOf .poly))
  | _, .modalFormula => call (.formulaOf .modal)
  | _, .sortedFormula => Formula.ofPoly <$> call .polyFormula
  | _, .formula .cnf => labeled "cnf" (Formula.cnf <$> call .clause)
  | _, .formula .fof => labeled "fof" (Formula.fof <$> call .unsortedFormula)
  | _, .formula .tff => labeled "tff" (call .sortedFormula)
  | _, .formula .qmf => labeled "qmf" (Formula.qmf <$> call .modalFormula)
  | _, .role => labeled "role" (call (.reserved Role))
  | _, .language => labeled "language" (member Language)
  | _, .typeDeclaration => labeled "type declaration" (sortDeclaration <|> typing)
  | _, .declaration l => labeled "declaration" (typedDeclaration <|> formulaDeclaration l)
  | _, .unitName => labeled "unit name" <|
      UnitName.atom <$> call .atom <|> UnitName.number <$> signedInteger
  | _, .unitNames => labeled "unit names" (bracketList1 (call .unitName))
  | _, .inclusion => labeled "include" do
      let inclusion ← tagged "include" includedFile
      let _ ← operator "."
      return inclusion
  | _, .annotatedUnit => labeled "annotated unit" do
      let language ← call .language
      let unit ← parens (unitParts language)
      let _ ← operator "."
      return unit
  | _, .entry => labeled "unit" <|
      Entry.inclusion <$> call .inclusion <|> Entry.unit <$> call .annotatedUnit
  | _, .entries => repeatWhile (fun rest => !rest.atEnd) (call .entry)
  | _, .problem => labeled "tptp" (Document.mk <$> call .entries)
  | _, .announcements => do
      step Parser.skipBlanks isStep_skipBlanks
      let lines ← repeatWhile (·.opensWith '%') announcement
      return lines.foldl Szs.Summary.join .empty
  | _, .transcript => labeled "tstp" do
      let szs ← call .announcements
      layout
      let entries ← call .entries
      return ⟨szs, entries⟩
  | _, .intro => labeled "intro" (call (.reserved Intro))
  | _, .info => labeled "info" <|
      tagged "description" (Info.description <$> call .atom) <|>
      tagged "iquote" (Info.iquote <$> call .atom) <|>
      tagged "status" (Info.status <$> call (.reserved Success)) <|>
      tagged "assumptions" assumptions <|>
      tagged "refutation" (Info.refutation <$> call .atom) <|>
      tagged "new_symbols" newSymbols <|>
      tagged "bind" binding <|>
      Info.expression <$> call .expression <|>
      application .application .atom .info <|>
      Info.number <$> call .number <|>
      Info.infos <$> call .infos
  | _, .infos => labeled "infos" (bracketList (call .info))
  | _, .expression => labeled "expression" do
      let _ ← character "$"
      tagged "fot" (Expression.term <$> call (.optionalParens .term)) <|> quotedFormula
  | _, .parent => labeled "parent" do
      let source ← call .source
      let infos ← withDefault [] do
        let _ ← operator ":"
        call .infos
      return .of source infos
  | _, .source => labeled "source" <|
      (fun _ => .unknown) <$> token "unknown" <|>
      tagged "file" (withMore .file .atom .unitName) <|>
      tagged "theory" (withMore .theory .atom .infos) <|>
      tagged "creator" (withMore .creator .atom .infos) <|>
      tagged "introduced" (withMore .introduced .intro .infos) <|>
      tagged "inference" inference <|>
      Source.unit <$> call .unitName
  | _, .provenance => labeled "annotation" (withMore .mk .source .infos)

/-- A loop asks for an item only where one is in sight. -/
theorem repeatWhile_congr {α : Type} {inSight : Rest → Bool} {p q : Parser α}
    (h : ∀ rest, inSight rest = true → p rest = q rest) :
    Parser.repeatWhile inSight p = Parser.repeatWhile inSight q := by
  funext rest
  induction hsize : rest.size using Nat.strongRecOn generalizing rest with
  | _ size ih =>
      rw [Parser.repeatWhile, Parser.repeatWhile]
      change (if inSight rest = true then _ else _) = if inSight rest = true then _ else _
      by_cases hsight : inSight rest = true
      · rw [if_pos hsight, if_pos hsight, h rest hsight]
        rcases q rest with ⟨⟨value, after⟩ | _ | _, dropped⟩
        · by_cases hlt : after.size < rest.size
          · have hafter := ih after.size (hsize ▸ hlt) after rfl
            simp only [Place.rest, id_eq, hlt, dite_true, Place.moveTo, hafter]
          · simp only [Place.rest, id_eq, hlt, dite_false]
        · rfl
        · rfl
      · rw [if_neg hsight, if_neg hsight]

/-- A percent sign that is in sight is the character that is taken. -/
theorem character_of_opensWith {rest : Rest} (h : rest.opensWith '%' = true) :
    Parser.character "%" rest = ⟨.done "%" (rest.drop 1), none⟩ := by
  have hstarts : rest.startsWith "%".toList = true := by
    simp only [Rest.opensWith, decide_eq_true_eq] at h
    rcases List.head?_eq_some_iff.mp h with ⟨chars, hchars⟩
    rcases rest.beyond_eq with hnil | hbeyond
    · exact absurd (hchars.symm.trans hnil) (List.cons_ne_nil _ _)
    · simp only [Rest.startsWith, hbeyond, hchars, beq_self_eq_true, Bool.true_and]
      rfl
  rw [Parser.character, Parser.expect, if_pos hstarts]
  rfl

theorem announcements_eq (n : Nat) :
    Grammar.announcements = (plan .announcements).run Production.parser n := by
  have hitem : ∀ rest : Rest, rest.opensWith '%' = true →
      Grammar.announcement rest = announcement.run Production.parser n rest := by
    intro rest h
    change _ = (Parser.character "%" >>= _) rest
    rw [Parser.bind_apply, character_of_opensWith h]
    rfl
  rw [Grammar.announcements, repeatWhile_congr hitem]
  rfl

/-- A term is told by its first character. -/
theorem termRule_eq (n : Nat) :
    Grammar.termRule (Parser.optionalParens Grammar.term n) =
      (plan .term).run Production.parser n := by
  refine congrArg (Parser.labeled "term") (funext fun rest => ?_)
  change _ = if rest.chars.head?.any Text.isUpperCase then _ else
    if decide (rest.chars.head? = some '"') = true then _ else
    if (rest.chars.head?.any fun c => Text.isDigitLike c || c = '+' || c = '-') then _ else _
  rcases rest.chars with _ | ⟨c, chars⟩
  · rfl
  · simp only [List.head?_cons, Option.any_some, Option.some.injEq, decide_eq_true_eq]
    rfl

/-- The parser of a production does what its plan says. -/
theorem unfolds {α : Type} (P : Production α) :
    Unfolds P.parser fun n => P.plan.run Production.parser n := by
  cases P with
  -- The productions that contain themselves spend a unit of the allowance.
  | optionalParens item => exact .inr ⟨rfl, fun _ => rfl⟩
  | subclause => exact .inr ⟨rfl, fun _ => rfl⟩
  | plainSort => exact .inr ⟨rfl, fun _ => rfl⟩
  | source => exact .inr ⟨rfl, fun _ => rfl⟩
  | polySort =>
      refine .inr ⟨rfl, fun n => ?_⟩
      change Grammar.polySortRule (Grammar.polySortArgument n) = _
      rw [Grammar.polySortArgument_eq]
      rfl
  | term =>
      refine .inr ⟨rfl, fun n => ?_⟩
      change Grammar.termRule (Grammar.termArgument n) = _
      rw [Grammar.termArgument_eq, termRule_eq]
  | unitary which =>
      refine .inr ⟨rfl, fun n => ?_⟩
      cases which <;> rfl
  | info =>
      refine .inr ⟨rfl, fun n => ?_⟩
      change Grammar.infoRule n (Grammar.info n) (Grammar.infoArgument n) = _
      rw [Grammar.infoArgument_eq]
      rfl
  -- Arguments of their own kind are an item in parentheses.
  | polyMapping =>
      refine .inl fun n => ?_
      change Grammar.mapping (Grammar.polySortArgument n) = _
      rw [Grammar.polySortArgument_eq]
      rfl
  | literal =>
      refine .inl fun n => ?_
      change Grammar.literal n = _
      rw [Grammar.literal, Grammar.equality, Grammar.predicateLiteral, Grammar.termArgument_eq]
      rfl
  | expression =>
      refine .inl fun n => ?_
      change Grammar.expression n = _
      rw [Grammar.expression, Grammar.termArgument_eq]
      rfl
  | formula l => cases l <;> exact .inl fun _ => rfl
  | announcements => exact .inl announcements_eq
  | _ => exact .inl fun _ => rfl

/-- The grammar as rules. -/
def rules : Rules Production where
  parser := Production.parser
  plan := Production.plan
  unfolds := Production.unfolds

end Production

end Tptp
