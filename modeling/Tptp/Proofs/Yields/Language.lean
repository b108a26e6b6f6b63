import Tptp.Proofs.Agreement.Basic
import Tptp.Proofs.Lexical.Word
import Tptp.Proofs.WholeText
import Tptp.Proofs.Yields.Document

/-!
# The Language of a Unit

A unit of a formula has the language that its keyword names.

The keyword of a unit is not kept. What the language of a unit is has to be seen from
its declaration, and it can be, as every grammar of formulas makes formulas of its own
language: the sorted one too, which decides only behind the formula whether that was
polymorphic. Sorts and types are the exception. Their declarations are read alike behind
all keywords, so those that stand behind another keyword than that of the sorted
language still count as units of the sorted language.

## Main definitions

* `Names`: The keyword of a language stands at the start of a text.
* `Declaration.languageBehind`: The language of a declaration behind a keyword.

## Theorems

* `Names.unique`: A text names at most one language.
* `Grammar.yields_formula_language`: The formulas of a language.
* `Grammar.yields_declaration_language`: The declarations behind a keyword.
* `Grammar.annotatedUnit_done`: The keyword in front of a unit.
* `Read.entry_language`: The language of a unit.
* `Read.entry_typing_language`: A type behind the keyword of another language.
-/

namespace Tptp

open Reading

/-- The keyword of a language stands, as a whole word, behind the layout at the start of
    a text. -/
def Names (text : List Char) (language : Language) : Prop :=
  ∃ rest, Skips text ((Vocabulary.canonical language).toList ++ rest) ∧ WordEnds rest

/-- The language of a declaration behind a keyword: that of the keyword for formulas, the
    sorted one for sorts and types. -/
def Declaration.languageBehind (keyword : Language) : Declaration → Language
  | .formula _ _ => keyword
  | .sort _ _ => .tff
  | .typing _ _ => .tff

/-- The first letter of a keyword is no layout. -/
theorem significant_keyword (language : Language) (rest : List Char) :
    Significant ((Vocabulary.canonical language).toList ++ rest) := by
  cases language <;> exact significant_of_isWordChar (by decide) _

/-- Keywords have one length, so of two keywords at one place one is the other. -/
theorem eq_of_keyword_append {language other : Language} {rest rest' : List Char}
    (h : (Vocabulary.canonical language).toList ++ rest =
      (Vocabulary.canonical other).toList ++ rest') : language = other := by
  have hlength : ∀ l : Language, (Vocabulary.canonical l).toList.length = 3 := by
    intro l
    cases l <;> rfl
  have hchars := (List.append_inj h ((hlength language).trans (hlength other).symm)).1
  exact Vocabulary.canonical_inj (String.toList_inj.mp hchars)

/-- A text names at most one language. -/
theorem Names.unique {text : List Char} {language other : Language} (h : Names text language)
    (h' : Names text other) : other = language := by
  rcases h with ⟨rest, hskips, -⟩
  rcases h' with ⟨rest', hskips', -⟩
  -- Layout leads from the text to one place only where something else starts.
  have hplace := (skipLayout_eq_of_skips hskips').symm.trans (skipLayout_eq_of_skips hskips)
  rw [skipLayout_significant (significant_keyword language rest),
    skipLayout_significant (significant_keyword other rest')] at hplace
  have hrest := (Outcome.done.inj (congrArg Result.outcome hplace)).2
  exact eq_of_keyword_append (congrArg Rest.chars hrest)

namespace Grammar

open Parser

/-- A polymorphic formula is one of the sorted language, whether or not it has to be
    polymorphic. -/
theorem language_ofPoly (formula : PolyFormula) : (Formula.ofPoly formula).language = .tff := by
  unfold Formula.ofPoly
  split <;> rfl

/-- The formulas of a language. -/
theorem yields_formula_language (language : Language) (allowance : Nat) :
    Yields (formula language allowance) (·.language = language) := by
  cases language with
  | cnf => exact .labeled _ ((yields_clause allowance).map fun _ _ => rfl)
  | fof => exact .labeled _ ((yields_unsortedFormula allowance).map fun _ _ => rfl)
  | tff => exact .labeled _ ((yields_polyFormula allowance).map fun f _ => language_ofPoly f)
  | qmf => exact .labeled _ ((yields_modalFormula allowance).map fun _ _ => rfl)

/-- What is declared of sorts and symbols, behind any keyword. -/
theorem yields_typeDeclaration_language (keyword : Language) (allowance : Nat) :
    Yields (typeDeclaration allowance) fun d => d.language = d.languageBehind keyword := by
  have hsort : Yields (sortDeclaration allowance) fun d =>
      d.language = d.languageBehind keyword := by
    refine yields_atom.bind fun name _ => (yields_operator _).bind fun _ _ => ?_
    refine (Yields.optionalParens yields_arity allowance).bind fun count _ => ?_
    refine yields_build ⟨.sort name count, ?_, rfl⟩
    rw [Declaration.ofArity, if_pos (Int.natCast_nonneg count), Int.toNat_natCast]
  have htyping : Yields (typing allowance) fun d => d.language = d.languageBehind keyword :=
    yields_atom.bind fun _ _ => (yields_operator _).bind fun _ _ =>
      (Yields.optionalParens yields_signature allowance).bind fun _ _ => .pure rfl
  exact .labeled _ (hsort.orElse htyping)

/-- The declarations behind a keyword. -/
theorem yields_declaration_language (keyword : Language) (allowance : Nat) :
    Yields (declaration (formula keyword allowance) allowance) fun d =>
      d.language = d.languageBehind keyword := by
  have htyped : Yields (typedDeclaration allowance) fun d =>
      d.language = d.languageBehind keyword :=
    (yields_token _).bind fun _ _ =>
      (Yields.optionalParens (yields_typeDeclaration_language keyword) allowance).comma
  have hformula : Yields (formulaDeclaration (formula keyword allowance)) fun d =>
      d.language = d.languageBehind keyword :=
    ((yields_reserved Role).labeled "role").bind fun _ _ =>
      (yields_formula_language keyword allowance).comma.bind fun _ h => .pure h
  exact .labeled _ (htyped.orElse hformula)

/-- The units behind a keyword, whatever their sources and information. -/
theorem yields_unitParts_language (keyword : Language) (allowance : Nat) :
    Yields (unitParts keyword allowance) fun unit =>
      unit.language = unit.declaration.languageBehind keyword :=
  yields_unitName.bind fun _ _ => (yields_declaration_language keyword allowance).comma.bind
    fun _ h => (yields_provenance allowance).maybeComma.bind fun _ _ => .pure h

/-- The keyword of a unit stands in front of it, and the unit is one behind this
    keyword. -/
theorem annotatedUnit_done {allowance : Nat} {text : List Char} {unit : AnnotatedUnit}
    {after : Rest} (h : (annotatedUnit allowance (.ofList text)).outcome = .done unit after) :
    ∃ keyword rest, text = (Vocabulary.canonical keyword).toList ++ rest ∧ WordEnds rest ∧
      unit.language = unit.declaration.languageBehind keyword := by
  rcases bind_done (labeled_done h) with ⟨keyword, _, hkeyword, hbehind⟩
  rcases bind_done hbehind with ⟨parts, _, hparts, hstop⟩
  rcases bind_done hstop with ⟨_, _, -, hpure⟩
  rw [outcome_pure, Outcome.done.injEq] at hpure
  -- The keyword ends where it does because a parenthesis follows it.
  have hlanguage : Relates language _ := (relates_lexeme relates_named).labeled _
  rcases hlanguage.sound hkeyword with ⟨left, rfl, rest, htext, hskips, -⟩
  rcases bind_done (labeled_done hparts) with ⟨_, _, hopening, -⟩
  have hends : WordEnds left := by
    intro c hc
    have hhead := opensWith_ofList_iff.mp (opens_of_operator (c := '(') rfl hopening)
    rw [Option.mem_def, hhead, Option.some.injEq] at hc
    rw [← hc]
    decide
  refine ⟨keyword, rest, htext, wordEnds_of_skips hskips hends, ?_⟩
  rw [← hpure.1]
  exact (yields_unitParts_language keyword allowance).parens.value hparts

end Grammar

/-- The language of a unit is the one that the text names, unless the unit declares a sort
    or a type, which the sorted language is there for. -/
theorem Read.entry_language {text : String} {unit : AnnotatedUnit}
    (h : Read.entry text = .ok (.unit unit)) :
    ∃ keyword, (∀ language, Names text.toList language ↔ language = keyword) ∧
      unit.language = unit.declaration.languageBehind keyword := by
  rcases read_ok_iff.mp h with ⟨after, hdone, -⟩
  rcases Parser.bind_done hdone with ⟨_, _, hlayout, hentry⟩
  rcases relates_skipLayout.sound hlayout with ⟨start, rfl, hskips, -⟩
  have hunit : (Grammar.annotatedUnit nestingAllowance (.ofList start)).outcome =
      .done unit after := by
    rcases Parser.orElse_done (Parser.labeled_done hentry) with hinclusion | ⟨-, hunit⟩
    · rcases Parser.map_done hinclusion with ⟨_, -, hne⟩
      exact absurd hne nofun
    · rcases Parser.map_done hunit with ⟨found, hfound, heq⟩
      rw [← Entry.unit.inj heq]
      exact hfound
  rcases Grammar.annotatedUnit_done hunit with ⟨keyword, rest, rfl, hends, hlanguage⟩
  have hnames : Names text.toList keyword := ⟨rest, hskips, hends⟩
  exact ⟨keyword, fun language => ⟨hnames.unique, fun heq => heq ▸ hnames⟩, hlanguage⟩

/-- A type behind the keyword of unsorted formulas is a unit of the sorted language. -/
theorem Read.entry_typing_language :
    Names "fof(a, type, b: $i).".toList .fof ∧
      ∃ unit, Read.entry "fof(a, type, b: $i)." = .ok (.unit unit) ∧ unit.language = .tff := by
  refine ⟨⟨"(a, type, b: $i).".toList, .nil _, ?_⟩, ?_⟩
  · intro c hc
    rw [← Option.some.inj hc]
    decide
  have hlanguage : (match Read.entry "fof(a, type, b: $i)." with
      | .ok (.unit unit) => some unit.language
      | _ => none) = some .tff := by decide +kernel
  rcases hread : Read.entry "fof(a, type, b: $i)." with _ | _ | unit
  · exact absurd (hread ▸ hlanguage) nofun
  · exact absurd (hread ▸ hlanguage) nofun
  · rw [hread] at hlanguage
    exact ⟨unit, rfl, Option.some.inj hlanguage⟩

/-- A unit of the modal language with a source. -/
theorem Read.entry_language_of_source :
    ∃ unit, Read.entry "qmf(a, axiom, #box : p, file(f))." = .ok (.unit unit) ∧
      ∃ keyword, (∀ language, Names "qmf(a, axiom, #box : p, file(f)).".toList language ↔
          language = keyword) ∧
        unit.language = unit.declaration.languageBehind keyword := by
  have hunit : (match Read.entry "qmf(a, axiom, #box : p, file(f))." with
      | .ok (.unit _) => true
      | _ => false) = true := by decide +kernel
  rcases hread : Read.entry "qmf(a, axiom, #box : p, file(f))." with _ | _ | unit
  · exact absurd (hread ▸ hunit) nofun
  · exact absurd (hread ▸ hunit) nofun
  · exact ⟨unit, rfl, Read.entry_language hread⟩

end Tptp
