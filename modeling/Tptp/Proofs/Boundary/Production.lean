import Tptp.Proofs.Bookkeeping.Grammar
import Tptp.Proofs.Boundary.Token
import Tptp.Proofs.Embedding.Clear

/-!
# Productions Respect Tokens

Every production of the grammar stops where no layout starts.

Most productions end with a token, whatever they match, and so they take the layout behind
them. Some may match nothing: what may follow an item, the entries of a document. They end with
a token, or else where they started. It is the last token that counts, on each of the paths
through a production. In between there are places where layout may start, behind a dollar sign
or behind the sign of a number, and nothing has to be known about them.

That the place where a production stops is one of the text has nothing to do with layout.
Productions are composed, and composed parsers move along the text.

## Main definitions

* `clears_signature`, `clears_typeDeclaration`, `clears_declaration`: Types and declarations.
* `clears_info`, `clears_expression`, `clears_parent`: Annotations.
* `clears_entry`, `keeps_entries`: Entries and documents.

## Theorems

* `Keeps.respectsTokens`: Composed parsers that keep layout away respect tokens.
* `IsProduction.keeps`, `IsProduction.respectsTokens`: Productions.
* `respectsTokens_transcript`: The leading comments of a transcript are layout.
-/

namespace Tptp

namespace Reading

variable {α : Type} {stops commas : Bool} {p : Parser α}

/-- Composed parsers leave an end of the text. -/
theorem Composed.relates_suffix (h : Composed stops commas p) :
    Relates p fun text _ left => left <:+ text := by
  constructor
  intro text value after hdone
  rcases (h.within text).path hdone with ⟨left, rfl, hpath⟩
  rcases hpath.exists_front with ⟨front, rfl⟩
  exact ⟨left, rfl, front, rfl⟩

/-- A composed parser that keeps layout away respects tokens. -/
theorem Keeps.respectsTokens (hkeeps : Keeps p) (h : Composed stops commas p) :
    RespectsTokens (Parser.lift p) := by
  refine .of_relates ⟨fun {text value after} hdone => ?_⟩
  rcases hkeeps.sound hdone with ⟨left, rfl, hleft⟩
  rcases h.relates_suffix.sound hdone with ⟨same, hsame, hsuffix⟩
  rw [Rest.ofList_inj hsame]
  exact ⟨same, rfl, hsuffix, Rest.ofList_inj hsame ▸ hleft⟩

/-- A list between brackets ends with the closing one. -/
theorem Composed.clears_bracketList (h : Composed stops true p) :
    Clears (Parser.bracketList p) := by
  have hlist : Composed stops true (Parser.sepBy p (Parser.operator ",")) :=
    h.sepBy (by decide) .comma
  exact .labeled _ (.labeled _ (.between "[" "]" hlist.relates_suffix))

theorem Composed.clears_bracketList1 (h : Composed stops true p) :
    Clears (Parser.bracketList1 p) := by
  have hlist : Composed stops true (Parser.sepBy1 p (Parser.operator ",")) :=
    h.sepBy1 (by decide) .comma
  exact .labeled _ (.labeled _ (.between "[" "]" hlist.relates_suffix))

theorem Clears.comma (hp : Clears p) : Clears (Parser.comma p) :=
  .bind (Clears.operator ",") fun _ => hp

theorem Clears.member (V : Type) [Vocabulary V] : Clears (Parser.member V) :=
  .lexeme relates_named

end Reading

namespace Grammar

open Reading Parser

theorem clears_polySort (allowance : Nat) : Clears (polySort allowance) := by
  cases allowance with
  | zero => exact .abort _
  | succ allowance =>
      have hargument : Composed false true (polySortArgument allowance) :=
        composed_polySortArgument allowance
      refine .labeled _ (.orElse (clears_var.map _) ?_)
      exact ((clears_name DefinedSort).labeled _).then fun _ =>
        (Clears.arguments hargument.relates_suffix).bind fun _ => .pure _

theorem clears_polySortArgument (allowance : Nat) : Clears (polySortArgument allowance) := by
  rw [polySortArgument_eq]
  exact .optionalParens clears_polySort (fun _ => composed_polySort) allowance

theorem clears_kind : Clears kind :=
  (Clears.token "$tType").then fun _ => .pure _

theorem clears_kindArgument (allowance : Nat) : Clears (kindArgument allowance) :=
  .optionalParens (fun _ => clears_kind) (fun _ _ => composed_kind) allowance

/-- A mapping ends with its result, whether or not there are arguments. -/
theorem clears_mapping {α : Type} {item : Parser α} (h : Clears item)
    (hitem : ∀ {commas}, Composed false commas item) : Clears (mapping item) := by
  have hproduct : Composed false true (parens (sepBy1 item (operator "*"))) :=
    (hitem.sepBy1 (by decide) (.operator (by decide))).parens
  have harguments : Composed false true (mappingArguments item) :=
    ((hitem.map _).orElse hproduct).bind fun _ => (Composed.operator (by decide)).bind fun _ =>
      .pure _
  exact .bind (harguments.withDefault _).relates_suffix fun _ => h.then fun _ => .pure _

theorem clears_signature (allowance : Nat) : Clears (signature allowance) := by
  have hvariable : Composed false true (boundSortVariable allowance) :=
    composed_var.bind fun _ => (Composed.operator (by decide)).bind fun _ =>
      (composed_kindArgument allowance).bind fun _ => .pure _
  have hquantifier : Composed false true (typeQuantifier allowance) :=
    (Composed.token (by decide)).bind fun _ => hvariable.bracketList1.bind fun _ =>
      (Composed.operator (by decide)).bind fun _ => .pure _
  have hmapping : Clears (optionalParens (fun n => mapping (polySortArgument n)) allowance) :=
    .optionalParens (fun n => clears_mapping (clears_polySortArgument n)
      (composed_polySortArgument n))
      (fun _ n => composed_mapping (composed_polySortArgument n)) allowance
  exact .labeled _ (.bind (hquantifier.withDefault _).relates_suffix fun _ =>
    hmapping.then fun _ => .pure _)

theorem clears_polyRange (allowance : Nat) : Clears (polyRange allowance) :=
  (clears_kind.map _).orElse ((clears_polySort allowance).map _)

theorem clears_monoFormula (allowance : Nat) : Clears (monoFormula allowance) :=
  .labeled _ (clears_formulaOf
    (composed_notedVariable (composed_sortedNote fun _ => composed_plainSort)) allowance)

theorem clears_formulaIn (language : Option Language) (allowance : Nat) :
    Clears (formulaIn language allowance) := by
  cases language with
  | none => exact .abort _
  | some language => exact clears_formula language allowance

theorem clears_role : Clears role :=
  (clears_reserved Role).labeled _

theorem clears_intro : Clears intro :=
  (clears_reserved Intro).labeled _

theorem clears_language : Clears language :=
  (Clears.member Language).labeled _

theorem clears_unitNames : Clears unitNames := by
  have hname : Composed false true unitName := composed_unitName
  exact hname.clears_bracketList1.labeled _

/-- The declaration of a sort is told from that of a symbol by what stands behind the colon. -/
theorem clears_typeDeclaration (allowance : Nat) : Clears (typeDeclaration allowance) := by
  have harity : ∀ n, Clears (arity n) := fun n =>
    (clears_mapping (clears_kindArgument n) (composed_kindArgument n)).then fun _ => .pure _
  have hcomposed : ∀ commas n, Composed false commas (arity n) := fun _ n =>
    (composed_mapping (composed_kindArgument n)).bind fun _ => .pure _
  have hsignature : Clears (optionalParens signature allowance) :=
    .optionalParens clears_signature (fun _ => composed_signature) allowance
  refine .labeled _ (.orElse ?_ ?_)
  · exact .bind clears_atom fun _ => .bind (Clears.operator ":") fun _ =>
      (Clears.optionalParens harity hcomposed allowance).then fun _ => .build _
  · exact .bind clears_atom fun _ => .bind (Clears.operator ":") fun _ =>
      hsignature.then fun _ => .pure _

theorem clears_declaration {formula : Parser Formula} (h : Clears formula) (allowance : Nat) :
    Clears (declaration formula allowance) := by
  have htype : Clears (optionalParens typeDeclaration allowance) :=
    .optionalParens clears_typeDeclaration (fun _ => composed_typeDeclaration) allowance
  refine .labeled _ (.orElse (.bind (Clears.token "type") fun _ => htype.comma) ?_)
  exact .bind clears_role fun _ => h.comma.then fun _ => .pure _

theorem clears_expression (allowance : Nat) : Clears (expression allowance) := by
  have hterm : Composed false true (termArgument allowance) := composed_termArgument allowance
  have hformula : ∀ language, Composed false true (optionalParens (formula language) allowance) :=
    fun language => .optionalParens (fun _ => composed_formula language) allowance
  refine .labeled _ (.bind (relates_expect fun h => h) fun _ => .orElse ?_ ?_)
  · exact .tagged _ (hterm.map _).relates_suffix
  · exact .bind clears_language fun language =>
      (Clears.parens (hformula language).relates_suffix).map _

/-- What has a keyword ends with the parenthesis behind its parts, and there are four other
    ways to end. -/
theorem clears_info (allowance : Nat) : Clears (info allowance) := by
  cases allowance with
  | zero => exact .abort _
  | succ allowance =>
      have htagged : ∀ {tag : String} {p : Parser Info}, Composed false true p →
          Clears (tagged tag p) := fun hp => .tagged _ hp.relates_suffix
      have hassumptions : Composed false true assumptions :=
        composed_unitNames.bind fun _ => .build _
      have hsymbols : Composed false true newSymbols :=
        composed_atom.bind fun _ => (((composed_var.map _).orElse
          (composed_atom.map _)).bracketList.behindComma).bind fun _ => .pure _
      have hbinding : Composed false true (binding allowance) :=
        composed_var.bind fun _ => (composed_expression allowance).behindComma.bind fun _ => .pure _
      have hinfo : Composed false true (info allowance) := (composed_info_and_argument allowance).1
      have hargument : Composed false true (infoArgument allowance) :=
        (composed_info_and_argument allowance).2
      refine .labeled _ (.orElse (htagged (composed_atom.map _)) <|
        .orElse (htagged (composed_atom.map _)) <|
        .orElse (htagged ((composed_reserved Success).map _)) <|
        .orElse (htagged hassumptions) <| .orElse (htagged (composed_atom.map _)) <|
        .orElse (htagged hsymbols) <| .orElse (htagged hbinding) <|
        .orElse ((clears_expression allowance).map _) <| .orElse ?_ <|
        .orElse (clears_number.map _) ((hinfo.clears_bracketList.labeled _).map _))
      exact clears_atom.then fun _ =>
        (Clears.arguments hargument.relates_suffix).bind fun _ => .pure _

theorem clears_parent (allowance : Nat) : Clears (parent allowance) := by
  have hinfos : Clears (operator ":" >>= fun _ => infos allowance) :=
    .bind (Clears.operator ":") fun _ => clears_infos allowance
  have hbehind : Keeps (withDefault [] (operator ":" >>= fun _ => infos allowance)) :=
    Relates.orElse hinfos.keeps (Keeps.pure _)
  exact .labeled _ ((clears_source allowance).then fun _ => hbehind.bind fun _ => .pure _)

theorem clears_inclusion : Clears inclusion := by
  have hfile : Composed false true includedFile := composed_includedFile
  have htagged : Clears (tagged "include" includedFile) := .tagged _ hfile.relates_suffix
  exact .labeled _ (.bind htagged fun _ => (Clears.operator ".").then fun _ => .pure _)

theorem clears_annotatedUnit (allowance : Nat) : Clears (annotatedUnit allowance) := by
  have hparts : ∀ language, Composed false true (unitParts language allowance) :=
    fun language => composed_unitParts language allowance
  exact .labeled _ (.bind clears_language fun language =>
    .bind (Clears.parens (hparts language).relates_suffix) fun _ =>
      (Clears.operator ".").then fun _ => .pure _)

theorem clears_entry (allowance : Nat) : Clears (entry allowance) :=
  .labeled _ ((clears_inclusion.map _).orElse ((clears_annotatedUnit allowance).map _))

/-- There may be no entries. -/
theorem keeps_entries (allowance : Nat) : Keeps (entries allowance) :=
  (clears_entry allowance).keeps.repeatWhile _

theorem keeps_problem (allowance : Nat) : Keeps (problem allowance) :=
  Relates.labeled _ ((keeps_entries allowance).bind fun _ => .pure _)

variable {α : Type}

/-- No production leaves layout that it did not start with. -/
theorem IsProduction.keeps {p : Parser α} (h : IsProduction p) : Keeps p := by
  cases h with
  | atom => exact clears_atom.keeps
  | var => exact clears_var.keeps
  | distinctObject => exact clears_distinctObject.keeps
  | reserved V => exact (clears_reserved V).keeps
  | name V => exact (clears_name V).keeps
  | function => exact ((clears_name _).labeled _).keeps
  | predicate => exact ((clears_name _).labeled _).keeps
  | sort => exact ((clears_name _).labeled _).keeps
  | polySort allowance => exact (clears_polySort allowance).keeps
  | kind => exact clears_kind.keeps
  | signature allowance => exact (clears_signature allowance).keeps
  | number => exact clears_number.keeps
  | term allowance => exact (clears_term allowance).keeps
  | literal allowance => exact (clears_literal allowance).keeps
  | signedLiteral allowance => exact (clears_signedLiteral allowance).keeps
  | subclause allowance => exact (clears_subclause allowance).keeps
  | clause allowance => exact (clears_clause allowance).keeps
  | polyRange allowance => exact (clears_polyRange allowance).keeps
  | unsortedFormula allowance => exact (clears_unsortedFormula allowance).keeps
  | monoFormula allowance => exact (clears_monoFormula allowance).keeps
  | polyFormula allowance => exact (clears_polyFormula allowance).keeps
  | modalFormula allowance => exact (clears_modalFormula allowance).keeps
  | sortedFormula allowance => exact ((clears_polyFormula allowance).map _).keeps
  | formula language allowance => exact (clears_formulaIn language allowance).keeps
  | role => exact clears_role.keeps
  | language => exact clears_language.keeps
  | typeDeclaration allowance => exact (clears_typeDeclaration allowance).keeps
  | declaration language allowance =>
      exact (clears_declaration (clears_formulaIn language allowance) allowance).keeps
  | unitName => exact clears_unitName.keeps
  | unitNames => exact clears_unitNames.keeps
  | intro => exact clears_intro.keeps
  | info allowance => exact (clears_info allowance).keeps
  | infos allowance => exact (clears_infos allowance).keeps
  | expression allowance => exact (clears_expression allowance).keeps
  | source allowance => exact (clears_source allowance).keeps
  | parent allowance => exact (clears_parent allowance).keeps
  | provenance allowance => exact (clears_provenance allowance).keeps
  | inclusion => exact clears_inclusion.keeps
  | annotatedUnit allowance => exact (clears_annotatedUnit allowance).keeps
  | entry allowance => exact (clears_entry allowance).keeps
  | entries allowance => exact keeps_entries allowance
  | problem allowance => exact keeps_problem allowance

theorem IsProduction.respectsTokens {p : Parser α} (h : IsProduction p) :
    RespectsTokens (lift p) :=
  h.keeps.respectsTokens h.composed

/-- Where no layout starts, there is no comment line, and nothing is announced. -/
theorem announcements_significant {text : List Char} (h : Significant text) :
    (announcements (.ofList text)).outcome = .done .empty (.ofList text) := by
  have hblanks : (skipBlanks (.ofList text)).outcome = .done () (.ofList text) := by
    rw [skipBlanks, skipWhile_isBlank_of_ne fun c hc => (h.1 c hc).1]
  have hpercent : ¬ (Rest.ofList text).opensWith '%' = true := fun hc =>
    (h.1 '%' (opensWith_ofList_iff.mp hc)).2 rfl
  have hlines : (repeatWhile (·.opensWith '%') announcement (.ofList text)).outcome =
      .done [] (.ofList text) := by
    rw [outcome_repeatWhile, if_neg hpercent]
  exact bind_outcome_eq_done_iff.mpr ⟨(), _, hblanks,
    bind_outcome_eq_done_iff.mpr ⟨[], _, hlines, rfl⟩⟩

theorem respectsTokens_announcements : RespectsTokens (lift announcements) := by
  constructor
  intro session summary after hat hdone
  rcases Rest.inText_iff.mp hat.1 with ⟨hrest, -⟩
  have hdone : (announcements session.rest).outcome = .done summary after := hdone
  rw [hrest, announcements_significant hat.2, ← hrest, Outcome.done.injEq] at hdone
  rw [← hdone.2]
  exact hat

/-- The entries of a transcript start at a token, as those of a problem do. -/
theorem respectsTokens_transcript (allowance : Nat) :
    RespectsTokens (lift (transcript allowance)) := by
  have hentries : RespectsTokens (lift (entries allowance)) :=
    IsProduction.respectsTokens (.entries allowance)
  exact .lift_labeled _ (respectsTokens_announcements.lift_bind fun _ =>
    RespectsTokens.skipLayout.lift_bind fun _ => hentries.lift_bind fun _ => .pure _)

end Grammar

end Tptp
