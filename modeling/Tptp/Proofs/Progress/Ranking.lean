import Tptp.Proofs.Progress.Production
import Tptp.Proofs.Progress.Reentry

/-!
# Ranks of Productions

The grammar descends.

A production calls another one at its own place only if that has a smaller rank. So there is
no left recursion in the grammar, not even a hidden one behind a part that may be empty. All
recursion is behind a character: a parenthesis, a bracket, a comma, a negation, a quantifier.
The ranks follow the text of the grammar from names up to documents. What is wrapped in
redundant parentheses has a rank above the item, since the item is tried first.

Few productions may match without taking a character: the notes of bound variables, and what
may stand in an empty document.

## Main definitions

* `Production.rank`, `Production.takes`: The ranks, and what takes a character.

## Theorems

* `Production.descends`: The plan of a production descends below its rank.
-/

namespace Tptp

open Reading Reading.Plan

namespace Production

/-- A production calls at its own place only what has a smaller rank. -/
def rank : {α : Type} → Production α → Nat
  | _, @name _ _ => 1
  | _, .function => 2
  | _, .predicate => 2
  | _, .sort => 2
  | _, .optionalParens item => item.rank + 1
  | _, .polySort => 3
  | _, .polyMapping => 5
  | _, .arity => 2
  | _, .signature => 7
  | _, .term => 3
  | _, .literal => 5
  | _, .signedLiteral => 6
  | _, .subclause => 7
  | _, .clause => 8
  | _, .unitary _ => 6
  | _, .formulaOf _ => 7
  | _, .plainSort => 3
  | _, .polyRange => 4
  | _, .unsortedFormula => 8
  | _, .monoFormula => 8
  | _, .polyFormula => 8
  | _, .modalFormula => 8
  | _, .sortedFormula => 9
  | _, .formula _ => 10
  | _, .role => 1
  | _, .typeDeclaration => 1
  | _, .declaration _ => 2
  | _, .unitName => 1
  | _, .annotatedUnit => 1
  | _, .entry => 2
  | _, .entries => 3
  | _, .problem => 4
  | _, .transcript => 4
  | _, .intro => 1
  | _, .info => 1
  | _, .source => 2
  | _, .parent => 3
  | _, .provenance => 3
  | _, _ => 0

/-- The production matches only with a character. -/
def takes : {α : Type} → Production α → Bool
  | _, .optionalParens item => item.takes
  | _, .unsortedNote => false
  | _, .sortedNote _ => false
  | _, .entries => false
  | _, .problem => false
  | _, .announcements => false
  | _, .transcript => false
  | _, _ => true

/-- The ranks and what takes a character, together. -/
def ranking : Ranking Production where
  rank := rank
  takes := takes

variable {limit : WithTop Nat} {taking : Bool}

/-- A call of a production with a smaller rank. -/
theorem descends_below {α : Type} {P : Production α} {bound : Nat} (hrank : P.rank < bound)
    (htakes : P.takes = true) : (call P).Descends ranking (.some bound) taking :=
  descends_call hrank fun _ => htakes

theorem descends_reservedName (V : Type) [Vocabulary V] :
    (reservedName V).Descends ranking limit taking :=
  (descends_character rfl).behind fun _ => (descends_call_top _).map _

theorem descends_application {α β γ : Type} {make : α → List β → γ} {head : Production α}
    {argument : Production β} (h : (call head).Descends ranking limit taking) :
    (application make head argument).Descends ranking limit taking :=
  h.followed fun _ _ => (descends_call_top _).arguments.bind fun _ => rfl

/-- A mapping starts with an item, or with a parenthesis in front of one. -/
theorem descends_mapping {α : Type} {item : Plan Production α}
    (h : ∀ {taking : Bool}, item.Descends ranking limit taking)
    (h' : item.Descends ranking ⊤ false) : (mapping item).Descends ranking limit taking := by
  have harguments : (mappingArguments item).Descends ranking limit false := by
    refine .behind (.orElse (h.map _) (.parens (h'.sepBy1 (descends_operator rfl)))) fun _ => ?_
    exact (descends_operator rfl).bind fun _ => rfl
  exact (harguments.withDefault []).bind fun _ => h.followed fun _ _ => rfl

theorem descends_boundSortVariable : boundSortVariable.Descends ranking ⊤ false :=
  (descends_call_top _).bind fun _ => (descends_operator rfl).bind fun _ =>
    (descends_call_top _).bind fun _ => rfl

theorem descends_typeQuantifier : typeQuantifier.Descends ranking limit taking :=
  (descends_token rfl).behind fun _ => descends_boundSortVariable.bracketList1.bind fun _ =>
    (descends_operator rfl).bind fun _ => rfl

theorem descends_fraction : fraction.Descends ranking limit taking :=
  descends_signedInteger.behind fun _ => (descends_character rfl).bind fun _ =>
    descends_integer.bind fun _ => descends_step _

theorem descends_decimalNumber : decimalNumber.Descends ranking limit taking := by
  have hliteral : (lexeme (.step Parser.decimalLiteral isStep_decimalLiteral) :
      Plan Production DecimalLiteral).Descends ranking limit true := .lexeme fun _ => rfl
  exact hliteral.behind fun _ => descends_step _

theorem descends_equality : equality.Descends ranking (.some 5) taking := by
  have hterm : (call (.optionalParens .term)).Descends ranking (.some 5) true :=
    descends_below (by decide) rfl
  have hsign : (labeled "eq" (member Sign) : Plan Production Sign).Descends ranking ⊤ false :=
    descends_member rfl
  exact hterm.behind fun _ => hsign.bind fun _ => (descends_call_top _).bind fun _ => rfl

theorem descends_unitClause : unitClause.Descends ranking (.some 7) taking :=
  .map _ (descends_below (by decide) rfl)

section

variable {F B : Type} (which : FormulaKind F B)

theorem descends_negation : (negation which).Descends ranking limit taking :=
  (descends_operator rfl).behind fun _ => (descends_call_top _).bind fun _ => rfl

theorem descends_notedVariable {α : Type} (note : Production α) :
    (notedVariable note).Descends ranking ⊤ false :=
  (descends_call_top _).bind fun _ => (descends_call_top _).bind fun _ => rfl

theorem descends_binder : (binder which).Descends ranking ⊤ false := by
  cases which with
  | unsorted => exact descends_notedVariable _
  | mono => exact descends_notedVariable _
  | poly => exact descends_notedVariable _
  | modal => exact descends_call_top _

theorem descends_quantification : (quantification which).Descends ranking limit taking := by
  have hquantifier : (labeled "quantifier" (member Quantifier) :
      Plan Production Quantifier).Descends ranking limit true := descends_member rfl
  exact hquantifier.behind fun _ => (descends_binder which).bracketList1.bind fun _ =>
    (descends_operator rfl).bind fun _ => (descends_call_top _).bind fun _ => descends_build _

theorem descends_modalization (apply : Modality → F → F) :
    (modalization which apply).Descends ranking limit taking := by
  have hmodality : (labeled "modality" (member Modality) :
      Plan Production Modality).Descends ranking limit true := descends_member rfl
  exact hmodality.behind fun _ => (descends_operator rfl).bind fun _ =>
    (descends_call_top _).bind fun _ => rfl

theorem descends_basicFormula : (basicFormula which).Descends ranking (.some 6) taking :=
  .orParens (.map _ (descends_below (by decide) rfl)) (descends_call_top _)

theorem descends_connection : (connection which).Descends ranking limit true := by
  have hconnective : (labeled "connective" (member Connective) :
      Plan Production Connective).Descends ranking limit true := descends_member rfl
  exact hconnective.behind fun _ => (descends_call_top _).bind fun _ => rfl

end

theorem descends_sortDeclaration : sortDeclaration.Descends ranking (.some 1) taking :=
  .behind (descends_below (by decide) rfl) fun _ => (descends_operator rfl).bind fun _ =>
    (descends_call_top _).bind fun _ => descends_build _

theorem descends_typing : typing.Descends ranking (.some 1) taking :=
  .behind (descends_below (by decide) rfl) fun _ => (descends_operator rfl).bind fun _ =>
    (descends_call_top _).bind fun _ => rfl

theorem descends_typedDeclaration : typedDeclaration.Descends ranking limit taking :=
  (descends_token rfl).behind fun _ => (descends_call_top _).comma

theorem descends_formulaDeclaration (l : Language) :
    (formulaDeclaration l).Descends ranking (.some 2) taking :=
  .behind (descends_below (by decide) rfl) fun _ =>
    (descends_call_top _).comma.bind fun _ => rfl

theorem descends_includedFile : includedFile.Descends ranking ⊤ false :=
  (descends_call_top _).bind fun _ => (descends_call_top _).maybeComma.bind fun _ =>
    descends_build _

theorem descends_unitParts (l : Language) : (unitParts l).Descends ranking ⊤ false :=
  (descends_call_top _).bind fun _ => (descends_call_top _).comma.bind fun _ =>
    (descends_call_top _).maybeComma.bind fun _ => rfl

theorem descends_announcement : announcement.Descends ranking limit true :=
  (descends_character rfl).behind fun _ => (descends_step _).bind fun _ =>
    (descends_step _).bind fun _ => rfl

theorem descends_quotedFormula : quotedFormula.Descends ranking ⊤ false :=
  (descends_call_top _).bind fun _ => (descends_call_top _).parens.map _

theorem descends_assumptions : assumptions.Descends ranking ⊤ false :=
  (descends_call_top _).bind fun _ => descends_build _

theorem descends_newSymbols : newSymbols.Descends ranking ⊤ false :=
  (descends_call_top _).bind fun _ =>
    (((descends_call_top _).map _).orElse ((descends_call_top _).map _)).bracketList.comma.bind
      fun _ => rfl

theorem descends_binding : binding.Descends ranking ⊤ false :=
  (descends_call_top _).bind fun _ => (descends_call_top _).comma.bind fun _ => rfl

theorem descends_withMore {α β γ : Type} {make : α → Option β → γ} {item : Production α}
    {more : Production β} (h : (call item).Descends ranking limit taking) :
    (withMore make item more).Descends ranking limit taking :=
  h.followed fun _ _ => (descends_call_top more).maybeComma.bind fun _ => rfl

theorem descends_inference : inference.Descends ranking ⊤ false :=
  (descends_call_top _).bind fun _ => (descends_call_top _).comma.bind fun _ =>
    (descends_call_top _).bracketList.comma.bind fun _ => rfl

/-- The plan of a production descends below its rank. -/
theorem descends {α : Type} (P : Production α) :
    P.plan.Descends ranking (.some P.rank) P.takes := by
  cases P with
  | atom =>
      exact .followed (.lexeme (.orElse (descends_quoted _) descends_lowerWord)) fun _ _ =>
        descends_step _
  | var => exact .followed (.lexeme descends_upperWord) fun _ _ => descends_build _
  | distinctObject => exact .followed (.lexeme (descends_quoted _)) fun _ _ => descends_build _
  | reserved V => exact .map _ (.lexeme descends_lowerWord)
  | name V =>
      exact .orElse (descends_reservedName V) (.map _ (descends_below Nat.zero_lt_one rfl))
  | function => exact descends_below (by decide) rfl
  | predicate => exact descends_below (by decide) rfl
  | sort => exact descends_below (by decide) rfl
  | optionalParens item =>
      -- The item may be called at the place of the parentheses, these only behind one of them.
      have hitem : (call item).Descends ranking (.some (item.rank + 1)) item.takes :=
        descends_call (Nat.lt_succ_self item.rank) id
      exact hitem.orParens (descends_call_top _)
  | polySort =>
      exact .orElse (.map _ (descends_below (by decide) rfl))
        (descends_application (descends_below (by decide) rfl))
  | kind => exact .followed (descends_token rfl) fun _ _ => rfl
  | polyMapping => exact descends_mapping (descends_below (by decide) rfl) (descends_call_top _)
  | arity =>
      exact .followed (descends_mapping (descends_below (by decide) rfl) (descends_call_top _))
        fun _ _ => rfl
  | signature =>
      exact .bind (.withDefault [] descends_typeQuantifier) fun _ =>
        .followed (descends_below (by decide) rfl) fun _ _ => rfl
  | number => exact .orElse descends_fraction descends_decimalNumber
  | term =>
      exact .look (.map _ (descends_below (by decide) rfl)) <|
        .look (.map _ (descends_below (by decide) rfl)) <|
        .look (.map _ (descends_below (by decide) rfl))
          (descends_application (descends_below (by decide) rfl))
  | literal => exact .orElse descends_equality (descends_application (descends_below (by decide) rfl))
  | signedLiteral =>
      refine .ifOpens ?_ (.followed (descends_below (by decide) rfl) fun _ _ => rfl)
      exact .behind (descends_operator rfl) fun _ => (descends_call_top _).bind fun _ => rfl
  | subclause =>
      -- A clause calls its parts at its own place; a part calls a clause in parentheses only.
      exact .ifOpens (.orElse descends_unitClause (.parens (descends_call_top _)))
        descends_unitClause
  | clause =>
      have hothers : (repeatWhile (·.opensWith '|') (do
          let _ ← operator "|"
          call .subclause) : Plan Production _).Descends ranking ⊤ false :=
        ⟨rfl, .behind (descends_operator rfl) fun _ => descends_call_top _⟩
      exact .behind (descends_below (by decide) rfl) fun _ => hothers.bind fun _ => rfl
  | unitary which =>
      -- Behind a negation, a quantifier or a modality, a unitary formula calls itself.
      refine .ifOpens (descends_negation which) <| .ifOpens (descends_quantification which) <|
        .ifOpens (descends_quantification which) ?_
      cases which with
      | modal =>
          exact .ifOpens (descends_modalization .modal _) (descends_basicFormula .modal)
      | _ => exact descends_basicFormula _
  | formulaOf which =>
      have hothers : (many (connection which)).Descends ranking ⊤ false :=
        ⟨rfl, descends_connection which⟩
      exact .behind (descends_below (Nat.lt_succ_self 6) rfl) fun _ => hothers.bind fun _ => rfl
  | unsortedNote => rfl
  | sortedNote item =>
      have hgiven : (do let _ ← operator ":"; call (.optionalParens item) :
          Plan Production _).Descends ranking (.some 0) false :=
        .behind (descends_operator rfl) fun _ => descends_call_top _
      exact hgiven.optional.map _
  | plainSort => exact descends_below (by decide) rfl
  | polyRange =>
      exact .orElse (.map _ (descends_below (by decide) rfl))
        (.map _ (descends_below (by decide) rfl))
  | unsortedFormula => exact descends_below (by decide) rfl
  | monoFormula => exact descends_below (by decide) rfl
  | polyFormula => exact descends_below (by decide) rfl
  | modalFormula => exact descends_below (by decide) rfl
  | sortedFormula => exact .map _ (descends_below (by decide) rfl)
  | formula l =>
      cases l with
      | cnf => exact .map _ (descends_below (by decide) rfl)
      | fof => exact .map _ (descends_below (by decide) rfl)
      | tff => exact descends_below (by decide) rfl
      | qmf => exact .map _ (descends_below (by decide) rfl)
  | role => exact descends_below (by decide) rfl
  | language => exact descends_member rfl
  | typeDeclaration => exact .orElse descends_sortDeclaration descends_typing
  | declaration l => exact .orElse descends_typedDeclaration (descends_formulaDeclaration l)
  | unitName =>
      exact .orElse (.map _ (descends_below (by decide) rfl)) (descends_signedInteger.map _)
  | unitNames => exact (descends_call_top _).bracketList1
  | inclusion =>
      have hinclusion : (tagged "include" includedFile).Descends ranking (.some 0) true :=
        descends_includedFile.tagged rfl
      exact hinclusion.behind fun _ => (descends_operator rfl).bind fun _ => rfl
  | annotatedUnit =>
      exact .behind (descends_below (by decide) rfl) fun l =>
        (descends_unitParts l).parens.bind fun _ => (descends_operator rfl).bind fun _ => rfl
  | entry =>
      exact .orElse (.map _ (descends_below (by decide) rfl))
        (.map _ (descends_below (by decide) rfl))
  | entries => exact ⟨rfl, descends_below (by decide) rfl⟩
  | problem => exact .map _ (descends_call (by decide) nofun)
  | announcements =>
      have hlines : (repeatWhile (·.opensWith '%') announcement).Descends ranking (.some 0) false :=
        ⟨rfl, descends_announcement⟩
      exact (descends_step _).bind fun _ => hlines.bind fun _ => rfl
  | transcript =>
      -- Announcements and layout may be empty, so the entries may be at the same place, too.
      have hannouncements : (call .announcements).Descends ranking (.some 4) false :=
        descends_call (by decide) nofun
      have hlayout : (layout : Plan Production Unit).Descends ranking (.some 4) false := rfl
      have hentries : (call .entries).Descends ranking (.some 4) false :=
        descends_call (by decide) nofun
      exact hannouncements.bind fun _ => hlayout.bind fun _ => hentries.bind fun _ => rfl
  | intro => exact descends_below (by decide) rfl
  | info =>
      -- A keyword is a character, so only the alternatives without one are at the same place.
      refine .orElse (.tagged rfl (.map _ (descends_call_top _))) <|
        .orElse (.tagged rfl (.map _ (descends_call_top _))) <|
        .orElse (.tagged rfl (.map _ (descends_call_top _))) <|
        .orElse (descends_assumptions.tagged rfl) <|
        .orElse (.tagged rfl (.map _ (descends_call_top _))) <|
        .orElse (descends_newSymbols.tagged rfl) <|
        .orElse (descends_binding.tagged rfl) <|
        .orElse (.map _ (descends_below (by decide) rfl)) <|
        .orElse (descends_application (descends_below (by decide) rfl)) <|
        .orElse (.map _ (descends_below (by decide) rfl)) <|
        .map _ (descends_below (by decide) rfl)
  | infos => exact (descends_call_top _).bracketList
  | expression =>
      have hterm : (tagged "fot" (Expression.term <$> call (.optionalParens .term)) :
          Plan Production Expression).Descends ranking ⊤ false :=
        ((descends_call_top _).map _).tagged rfl
      exact .behind (descends_character rfl) fun _ => hterm.orElse descends_quotedFormula
  | parent =>
      -- A parent starts with its source, and sources call parents behind a bracket only.
      have hinfos : (do let _ ← operator ":"; call .infos :
          Plan Production _).Descends ranking ⊤ false :=
        .behind (descends_operator rfl) fun _ => descends_call_top _
      exact .behind (descends_below (by decide) rfl) fun _ =>
        (hinfos.withDefault []).bind fun _ => rfl
  | source =>
      have hunknown : ((fun _ => Source.unknown) <$> token "unknown" :
          Plan Production Source).Descends ranking (.some 2) true := (descends_token rfl).map _
      refine .orElse hunknown <|
        .orElse ((descends_withMore (descends_call_top _)).tagged rfl) <|
        .orElse ((descends_withMore (descends_call_top _)).tagged rfl) <|
        .orElse ((descends_withMore (descends_call_top _)).tagged rfl) <|
        .orElse ((descends_withMore (descends_call_top _)).tagged rfl) <|
        .orElse (descends_inference.tagged rfl) <|
        .map _ (descends_below (by decide) rfl)
  | provenance => exact descends_withMore (descends_below (by decide) rfl)

end Production

end Tptp
