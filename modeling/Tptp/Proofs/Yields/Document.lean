import Tptp.Proofs.WholeText
import Tptp.Proofs.Yields.Formula
import Tptp.Read

/-!
# Well-Formed Documents

The productions of provenance and of documents yield well-formed values, and so
does reading a whole text.

What a whole text is read as is what a production yields, behind layout and up to
the end of the text. So the facts about productions become facts about texts: a
document that was read is well-formed, and reading that was given up has an excuse
in the text. No text makes a constructor refuse its arguments.

## Theorems

* `yields_info`, `yields_source`, `yields_provenance`: Provenance.
* `yields_declaration`, `yields_entry`: Units and inclusions.
* `yields_problem`, `yields_transcript`: Documents.
* `read_wellFormed`: From productions to whole texts.
* `document_wellFormed`: Documents that are read are well-formed.
-/

namespace Tptp

namespace Grammar

open Reading Parser

theorem yields_unitName : Yields unitName UnitName.WellFormed :=
  .labeled _ (.orElse (yields_atom.map fun _ h => h) (yields_signedInteger.map fun _ _ => trivial))

theorem yields_unitNames : Yields unitNames (Many1 UnitName.WellFormed) :=
  .labeled _ yields_unitName.bracketList1

theorem yields_expression (allowance : Nat) :
    Yields (expression allowance) Expression.WellFormed := by
  have hformula : Yields (quotedFormula allowance) Expression.WellFormed :=
    ((yields_member Language).labeled "language").bind fun language _ =>
      (Yields.optionalParens (yields_formula language) allowance).parens.map fun _ h => h
  refine .labeled _ ((yields_character _).bind fun _ _ => .orElse ?_ hformula)
  exact .tagged _ ((yields_termArgument allowance).map fun _ h => h)

/-- The list of assumed units is never empty, so assumptions are never refused. -/
theorem yields_assumptions : Yields assumptions Info.WellFormed := by
  refine yields_unitNames.bind fun names hnames => ?_
  refine yields_build ⟨.assumptions names, ?_, .assumptions hnames.1 hnames.2⟩
  rw [Info.ofAssumptions, List.isEmpty_eq_false_iff.mpr hnames.1, if_neg Bool.false_ne_true]

theorem yields_symbol : Yields (Symbol.var <$> var <|> Symbol.atom <$> atom) Symbol.WellFormed :=
  .orElse (yields_var.map fun _ h => h) (yields_atom.map fun _ h => h)

theorem yields_newSymbols : Yields newSymbols Info.WellFormed :=
  yields_atom.bind fun _ hname => yields_symbol.bracketList.comma.bind fun _ hsymbols =>
    .pure (.newSymbols hname hsymbols)

theorem yields_infoList {info : Parser Info} (h : Yields info Info.WellFormed) :
    Yields (infoList info) InfosWellFormed :=
  .labeled _ h.bracketList

/-- A piece of information is well-formed if the pieces inside it are. -/
theorem yields_infoRule {allowance : Nat} {info argument : Parser Info}
    (hi : Yields info Info.WellFormed) (ha : Yields argument Info.WellFormed) :
    Yields (infoRule allowance info argument) Info.WellFormed := by
  have hbinding : Yields (binding allowance) Info.WellFormed :=
    yields_var.bind fun _ hv => (yields_expression allowance).comma.bind fun _ he =>
      .pure (.bind hv he)
  have hgeneral : Yields (generalApplication argument) Info.WellFormed :=
    yields_atom.bind fun _ hname => ha.arguments.bind fun _ hinfos =>
      .pure (.application hname hinfos)
  refine .labeled _ (.orElse ((yields_atom.map fun _ h => .description h).tagged _) ?_)
  refine .orElse ((yields_atom.map fun _ h => .iquote h).tagged _) ?_
  refine .orElse (((yields_reserved Success).map fun _ h => .status h).tagged _) ?_
  refine .orElse (yields_assumptions.tagged _) ?_
  refine .orElse ((yields_atom.map fun _ h => .refutation h).tagged _) ?_
  refine .orElse (yields_newSymbols.tagged _) (.orElse (hbinding.tagged _) ?_)
  refine .orElse ((yields_expression allowance).map fun _ h => .expression h) ?_
  refine .orElse hgeneral (.orElse (yields_number.map fun _ h => .number h) ?_)
  exact (yields_infoList hi).map fun _ h => .infos h

theorem yields_info_and_argument (allowance : Nat) :
    Yields (info allowance) Info.WellFormed ∧ Yields (infoArgument allowance) Info.WellFormed := by
  induction allowance with
  | zero => exact ⟨.tooDeep, .tooDeep⟩
  | succ allowance ih => exact ⟨yields_infoRule ih.1 ih.2, ih.1.orParens ih.2⟩

theorem yields_info (allowance : Nat) : Yields (info allowance) Info.WellFormed :=
  (yields_info_and_argument allowance).1

theorem yields_infos (allowance : Nat) : Yields (infos allowance) InfosWellFormed :=
  yields_infoList (yields_info allowance)

theorem yields_parentRule {allowance : Nat} {source : Parser Source}
    (h : Yields source Source.WellFormed) :
    Yields (parentRule allowance source) Parent.WellFormed := by
  have hinfos : Yields (operator ":" >>= fun _ => infos allowance) InfosWellFormed :=
    (yields_operator _).bind fun _ _ => yields_infos allowance
  refine .labeled _ (h.bind fun _ hsource => ?_)
  refine (hinfos.withDefault ?_).bind fun _ hi => .pure (.of hsource hi)
  intro i hi
  exact absurd hi List.not_mem_nil

/-- A source is well-formed if its parents are. -/
theorem yields_sourceRule {allowance : Nat} {parent : Parser Parent}
    (h : Yields parent Parent.WellFormed) :
    Yields (sourceRule allowance parent) Source.WellFormed := by
  have hinfos := (yields_infos allowance).maybeComma
  have hfile : Yields file Source.WellFormed :=
    yields_atom.bind fun _ hname => yields_unitName.maybeComma.bind fun _ hunit =>
      .pure (.file hname hunit)
  have htheory : Yields (theory allowance) Source.WellFormed :=
    yields_atom.bind fun _ hname => hinfos.bind fun _ hi => .pure (.theory hname hi)
  have hcreator : Yields (creator allowance) Source.WellFormed :=
    yields_atom.bind fun _ hname => hinfos.bind fun _ hi => .pure (.creator hname hi)
  have hintroduced : Yields (introduced allowance) Source.WellFormed :=
    ((yields_reserved Intro).labeled "intro").bind fun _ hintro => hinfos.bind fun _ hi =>
      .pure (.introduced hintro hi)
  have hinference : Yields (inference allowance parent) Source.WellFormed :=
    yields_atom.bind fun _ hrule => (yields_infos allowance).comma.bind fun _ hi =>
      h.bracketList.comma.bind fun _ hparents => .pure (.inference hrule hi hparents)
  refine .labeled _ (.orElse ((yields_token _).map fun _ _ => .unknown) ?_)
  refine .orElse (hfile.tagged _) (.orElse (htheory.tagged _) (.orElse (hcreator.tagged _) ?_))
  refine .orElse (hintroduced.tagged _) (.orElse (hinference.tagged _) ?_)
  exact yields_unitName.map fun _ h => .unit h

theorem yields_source (allowance : Nat) : Yields (source allowance) Source.WellFormed := by
  induction allowance with
  | zero => exact .tooDeep
  | succ allowance ih => exact yields_sourceRule (yields_parentRule ih)

theorem yields_provenance (allowance : Nat) :
    Yields (provenance allowance) Provenance.WellFormed :=
  .labeled _ ((yields_source allowance).bind fun _ hsource =>
    (yields_infos allowance).maybeComma.bind fun _ hi => .pure ⟨hsource, hi⟩)

theorem yields_arity (allowance : Nat) : Yields (arity allowance) fun _ => True :=
  (yields_mapping (yields_kindArgument allowance)).bind fun _ _ => .pure trivial

/-- The arity of a sort is the length of a list, so it is not negative and the
    declaration is not refused. -/
theorem yields_sortDeclaration (allowance : Nat) :
    Yields (sortDeclaration allowance) Declaration.WellFormed := by
  refine yields_atom.bind fun name hname => (yields_operator _).bind fun _ _ => ?_
  refine (Yields.optionalParens yields_arity allowance).bind fun count _ => ?_
  refine yields_build ⟨.sort name count, ?_, hname⟩
  rw [Declaration.ofArity, if_pos (Int.natCast_nonneg count), Int.toNat_natCast]

theorem yields_typeDeclaration (allowance : Nat) :
    Yields (typeDeclaration allowance) Declaration.WellFormed := by
  have htyping : Yields (typing allowance) Declaration.WellFormed :=
    yields_atom.bind fun _ hname => (yields_operator _).bind fun _ _ =>
      (Yields.optionalParens yields_signature allowance).bind fun _ h => .pure ⟨hname, h⟩
  exact .labeled _ ((yields_sortDeclaration allowance).orElse htyping)

theorem yields_typedDeclaration (allowance : Nat) :
    Yields (typedDeclaration allowance) Declaration.WellFormed :=
  (yields_token _).bind fun _ _ => (Yields.optionalParens yields_typeDeclaration allowance).comma

theorem yields_declaration {formula : Parser Formula} (h : Yields formula Formula.WellFormed)
    (allowance : Nat) : Yields (declaration formula allowance) Declaration.WellFormed := by
  have hformula : Yields (formulaDeclaration formula) Declaration.WellFormed :=
    ((yields_reserved Role).labeled "role").bind fun _ hrole => h.comma.bind fun _ hstatement =>
      .pure ⟨hrole, hstatement⟩
  exact .labeled _ ((yields_typedDeclaration allowance).orElse hformula)

/-- A selection that is given is not empty, so an inclusion is never refused. -/
theorem yields_inclusion : Yields inclusion Include.WellFormed := by
  have hfile : Yields includedFile Include.WellFormed := by
    refine yields_atom.bind fun name hname => ?_
    refine yields_unitNames.maybeComma.bind fun selection hselection => ?_
    refine yields_build ⟨⟨name, selection⟩, ?_, hname, hselection⟩
    rcases selection with _ | _ | _
    · rfl
    · exact absurd rfl (hselection [] rfl).1
    · rfl
  exact .labeled _ ((hfile.tagged _).bind fun _ h => (yields_operator _).bind fun _ _ => .pure h)

theorem yields_unitParts (language : Language) (allowance : Nat) :
    Yields (unitParts language allowance) AnnotatedUnit.WellFormed :=
  yields_unitName.bind fun _ hname =>
    (yields_declaration (yields_formula language allowance) allowance).comma.bind fun _ hd =>
      (yields_provenance allowance).maybeComma.bind fun _ hp => .pure ⟨hname, hd, hp⟩

theorem yields_annotatedUnit (allowance : Nat) :
    Yields (annotatedUnit allowance) AnnotatedUnit.WellFormed :=
  .labeled _ (((yields_member Language).labeled "language").bind fun language _ =>
    (yields_unitParts language allowance).parens.bind fun _ h =>
      (yields_operator _).bind fun _ _ => .pure h)

theorem yields_entry (allowance : Nat) : Yields (entry allowance) Entry.WellFormed :=
  .labeled _ (.orElse (yields_inclusion.map fun _ h => h)
    ((yields_annotatedUnit allowance).map fun _ h => h))

theorem yields_entries (allowance : Nat) :
    Yields (entries allowance) (∀ e ∈ ·, Entry.WellFormed e) :=
  (yields_entry allowance).repeatWhile _

theorem yields_problem (allowance : Nat) : Yields (problem allowance) Problem.WellFormed :=
  .labeled _ ((yields_entries allowance).map fun _ h => h)

theorem yields_announcements : Yields announcements fun _ => True := by
  have hblanks : Yields skipBlanks fun _ => True :=
    yields_of_step fun _ => .inl ⟨(), _, rfl, trivial⟩
  have hline : Yields restOfLine fun _ => True := by
    constructor
    · intro rest after value _
      trivial
    · intro rest after value h
      rw [restOfLine, Outcome.done.injEq] at h
      exact h.2 ▸ rest.suffix_nextLine
    · intro rest reason h
      exact absurd h (by simp only [restOfLine, reduceCtorEq, not_false_eq_true])
  have hannouncement : Yields announcement fun _ => True :=
    (yields_take 1).bind fun _ _ => hline.bind fun _ _ => hblanks.bind fun _ _ => .pure trivial
  exact hblanks.bind fun _ _ => (hannouncement.repeatWhile _).bind fun _ _ => .pure trivial

theorem yields_transcript (allowance : Nat) :
    Yields (transcript allowance) Transcript.WellFormed :=
  .labeled _ (yields_announcements.bind fun _ _ => yields_skipLayout.bind fun _ _ =>
    (yields_entries allowance).bind fun _ h => .pure h)

end Grammar

namespace Reading

variable {α : Type} {W : α → Prop} {p : Parser α}

theorem yields_endOfInput : Yields Parser.endOfInput fun _ => True := by
  refine yields_of_step fun rest => ?_
  rw [Parser.endOfInput]
  split
  · exact .inl ⟨(), 0, rfl, trivial⟩
  · exact .inr ⟨_, rfl⟩

/-- A whole text is read as what the parser yields, and reading it is given up for
    a reason that the text is to blame for. -/
theorem readFromStart_yields (h : Yields p W) (text : String) :
    (∀ value, readFromStart p text = .ok value → W value) ∧
      ∀ reason, readFromStart p text = .error (.aborted reason) → Excuse text.toList reason := by
  have hwhole : Yields (whole p) W :=
    h.bind fun _ hw => yields_endOfInput.bind fun _ _ => .pure hw
  refine ⟨fun value hread => ?_, fun reason hread => ?_⟩
  · rcases readFromStart_ok_iff.mp hread with ⟨after, hdone⟩
    exact hwhole.value hdone
  · exact hwhole.excuse (readFromStart_aborted_iff.mp hread)

/-- As for `readFromStart_yields`, with layout in front. -/
theorem read_yields (h : Yields p W) (text : String) :
    (∀ value, read p text = .ok value → W value) ∧
      ∀ reason, read p text = .error (.aborted reason) → Excuse text.toList reason :=
  readFromStart_yields (p := Parser.skipLayout >>= fun _ => p)
    (yields_skipLayout.bind fun _ _ => h) text

end Reading

/-- Whatever is read as a document is well-formed, and whatever keeps a text from
    being read to the end is nesting or a number that is too large, in alternatives
    that were given up as in all others. -/
theorem document_wellFormed (text : String) :
    (∀ problem, Read.problem text = .ok problem → problem.WellFormed) ∧
      (∀ transcript, Read.transcript text = .ok transcript → transcript.WellFormed) ∧
      ∀ reason, Read.problem text = .error (.aborted reason) ∨
        Read.transcript text = .error (.aborted reason) →
          Reading.Excuse text.toList reason := by
  have hproblem := Reading.read_yields (Grammar.yields_problem nestingAllowance) text
  have htranscript := Reading.readFromStart_yields
    (Grammar.yields_transcript nestingAllowance) text
  refine ⟨hproblem.1, htranscript.1, fun reason h => ?_⟩
  rcases h with h | h
  · exact hproblem.2 reason h
  · exact htranscript.2 reason h

/-- A unit with a declaration of its own and one with a source. -/
theorem document_wellFormed_of_units : ∃ problem,
    Read.problem "tff(s,type,l: $tType). cnf(c,plain,p | ~ q,inference(r,[],[a]))." = .ok problem ∧
      problem.WellFormed := by
  have hok : (Read.problem
    "tff(s,type,l: $tType). cnf(c,plain,p | ~ q,inference(r,[],[a])).").isOk = true := by
    decide +kernel
  rcases hread : Read.problem
    "tff(s,type,l: $tType). cnf(c,plain,p | ~ q,inference(r,[],[a]))." with error | problem
  · rw [hread] at hok
    exact absurd hok Bool.false_ne_true
  · exact ⟨problem, rfl, (document_wellFormed _).1 problem hread⟩

end Tptp
