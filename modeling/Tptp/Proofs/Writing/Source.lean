import Tptp.Proofs.Writing.Info
import Tptp.Proofs.Writing.Nesting

/-!
# Reading Written Provenance Back

Sources, parents and annotations are read back from their texts.

Where an optional list of information is absent its comma, or its colon, must not stand
behind. This is so in the parentheses of a keyword, between the parents of an inference,
and at the end of a text. An absent list and an empty one are different texts, and they
are read back as different values.

## Theorems

* `readsBack_source`, `readsBack_parent`: Sources and their parents.
* `read_ok_of_written`: What is written is read, unless it is nested too deeply.
* `provenance_of_nested`: What is nested too deeply is not read.
-/

namespace Tptp

namespace Writing

open Reading Parser Text Syntax Grammar

variable {signs text left : List Char}

section

variable {β γ : Type} {infos : Option (List Info)} {texts : List (List Char)}

/-- Information that may be absent is read back where no comma follows. -/
theorem readsBack_optionalInfos (h : Info.OptionalWritten infos texts)
    (hwell : ∀ list ∈ infos, InfosWellFormed list) (hsub : signs ⊆ separators)
    (hsigns : ',' ∉ signs) (allowance : Nat) :
    ReadsBack signs (maybeComma (Grammar.infos allowance)) infos (texts.flatMap (',' :: ·)) := by
  cases h with
  | none => exact .maybeComma_none hsigns
  | @some pieces h =>
      have hpieces : ∀ piece ∈ pieces, InfoReadsBack piece.1 piece.2 := fun piece hpiece =>
        readsBack_info (h piece hpiece) (hwell _ rfl _ (List.mem_map_of_mem hpiece))
      rw [List.flatMap_singleton]
      exact (readsBack_infoList hpieces hsub allowance).maybeComma (opens_bracketed _)

/-- A piece with information behind it that may be absent. -/
theorem readsBack_withInfos {p : Parser β} {value : β} (f : β → Option (List Info) → γ)
    (hp : ReadsBack (',' :: signs) p value text) (h : Info.OptionalWritten infos texts)
    (hwell : ∀ list ∈ infos, InfosWellFormed list) (hsub : signs ⊆ separators)
    (hsigns : ',' ∉ signs) (allowance : Nat) :
    ReadsBack signs (p >>= fun value => maybeComma (Grammar.infos allowance) >>= fun infos =>
      pure (f value infos)) (f value infos) (text ++ texts.flatMap (',' :: ·)) :=
  hp.bind ((readsBack_optionalInfos h hwell hsub hsigns allowance).map (f value))
    fun hleft => endsIn_items hleft _

end

/-- A source is read back from a text with every part of the allowance. -/
structure SourceReadsBack (s : Source) (text : List Char) : Prop where
  opens : Opens text
  reads (allowance : Nat) : ReadsBack separators (source allowance) s text

/-- A parent is read back from a text where neither information nor another argument
    follows. -/
structure ParentReadsBack (p : Parent) (text : List Char) : Prop where
  opens : Opens text
  reads (allowance : Nat) : ReadsBack [',', ']'] (parent allowance) p text

namespace SourceReadsBack

variable {s : Source}

theorem of_rule (hopens : Opens text) (h : ∀ allowance,
    ReadsBack separators (sourceRule allowance (parent allowance)) s text) :
    SourceReadsBack s text := by
  refine ⟨hopens, fun allowance => ?_⟩
  cases allowance with
  | zero => exact fun _ _ => .abort rfl
  | succ allowance => exact h allowance

end SourceReadsBack

theorem readsBack_unknown : SourceReadsBack .unknown "unknown".toList := by
  have hword : ReadsBack separators (token "unknown") "unknown" "unknown".toList := by
    intro left hleft
    have hends := (hleft.termEnds (List.Subset.refl _)).1
    exact reads_lexeme (reads_wholeWord _ _ hends.wordEnds) (.nil left) hends.significant
  exact .of_rule ⟨'u', _, rfl, by decide⟩ fun allowance => .labeled _ (hword.map _).orElse

theorem readsBack_file {a : Atom} (h : a.WellFormed) {unit : Option UnitName}
    (hunit : ∀ name ∈ unit, name.WellFormed) (hlimits : ∀ name ∈ unit, name.InLimits) :
    SourceReadsBack (.file a unit)
      (applied "file" (a.written :: (unit.map UnitName.written).toList)) := by
  have hatom : ReadsBack [',', ')'] atom a a.written := readsBack_atom h (by decide)
  have hfile : ReadsBack [')'] file (.file a unit)
      (a.written ++ (unit.map UnitName.written).toList.flatMap (',' :: ·)) := by
    refine hatom.bind (ReadsBack.map (Source.file a) ?_) fun hleft => endsIn_items hleft _
    cases unit with
    | none => exact .maybeComma_none (by decide)
    | some name =>
        rw [Option.map_some, Option.toList_some, List.flatMap_singleton]
        exact (readsBack_unitName (hunit name rfl) (hlimits name rfl) (by decide)).maybeComma
          (opens_unitName name)
  refine .of_rule (opens_applied (by decide) _) fun allowance => .labeled _ ?_
  refine .orElse_of_misses (fun left => .map (misses_token (by decide) _ left)) <| .orElse ?_
  exact hfile.applied_cons (opens_atom a) (List.Subset.refl _)

section

variable {infos : Option (List Info)} {texts : List (List Char)}
  (hinfos : Info.OptionalWritten infos texts) (hwell : ∀ list ∈ infos, InfosWellFormed list)

include hinfos hwell

theorem readsBack_theory {a : Atom} (h : a.WellFormed) :
    SourceReadsBack (.theory a infos) (applied "theory" (a.written :: texts)) := by
  have hatom : ReadsBack [',', ')'] atom a a.written := readsBack_atom h (by decide)
  refine .of_rule (opens_applied (by decide) _) fun allowance => .labeled _ ?_
  have htheory : ReadsBack [')'] (theory allowance) (.theory a infos) _ :=
    readsBack_withInfos Source.theory hatom hinfos hwell (by decide) (by decide) allowance
  refine .orElse_of_misses (fun left => .map (misses_token (by decide) _ left)) <|
    .orElse_of_misses (misses_keyword (by decide) _) <| .orElse ?_
  exact htheory.applied_cons (opens_atom a) (List.Subset.refl _)

theorem readsBack_creator {a : Atom} (h : a.WellFormed) :
    SourceReadsBack (.creator a infos) (applied "creator" (a.written :: texts)) := by
  have hatom : ReadsBack [',', ')'] atom a a.written := readsBack_atom h (by decide)
  refine .of_rule (opens_applied (by decide) _) fun allowance => .labeled _ ?_
  have hcreator : ReadsBack [')'] (creator allowance) (.creator a infos) _ :=
    readsBack_withInfos Source.creator hatom hinfos hwell (by decide) (by decide) allowance
  refine .orElse_of_misses (fun left => .map (misses_token (by decide) _ left)) <|
    .orElse_of_misses (misses_keyword (by decide) _) <|
    .orElse_of_misses (misses_keyword (by decide) _) <| .orElse ?_
  exact hcreator.applied_cons (opens_atom a) (List.Subset.refl _)

theorem readsBack_introduced {word : Reserved Intro} (h : word.WellFormed) :
    SourceReadsBack (.introduced word infos)
      (applied "introduced" (word.text.toList :: texts)) := by
  have hword : ReadsBack [',', ')'] intro word word.text.toList :=
    (readsBack_reserved isLowerWord_intro h (by decide)).labeled _
  refine .of_rule (opens_applied (by decide) _) fun allowance => .labeled _ ?_
  have hintroduced : ReadsBack [')'] (introduced allowance) (.introduced word infos) _ :=
    readsBack_withInfos Source.introduced hword hinfos hwell (by decide) (by decide) allowance
  refine .orElse_of_misses (fun left => .map (misses_token (by decide) _ left)) <|
    .orElse_of_misses (misses_keyword (by decide) _) <|
    .orElse_of_misses (misses_keyword (by decide) _) <|
    .orElse_of_misses (misses_keyword (by decide) _) <| .orElse ?_
  exact hintroduced.applied_cons (opens_reserved isLowerWord_intro h) (List.Subset.refl _)

end

/-- What opens with no letter is the name of a unit. -/
theorem readsBack_sourceRule_of_head {allowance : Nat} {p : Parser Parent} {s : Source}
    (hhead : ∀ left, ∀ c ∈ (text ++ left).head?, c.isLower = false)
    (h : ReadsBack signs (Source.unit <$> unitName) s text) :
    ReadsBack signs (sourceRule allowance p) s text := by
  have hmiss : ∀ {tag : String} {p : Parser Source}, tag.toList.head?.any Char.isLower = true →
      ∀ left, MissesUnless (· = .tooDeep) (tagged tag p) (text ++ left) :=
    fun htag left => misses_keyword_of_head htag (hhead left)
  refine .labeled _ (.orElse_of_misses (fun left => .map ?_) <|
    .orElse_of_misses (hmiss (by decide)) <| .orElse_of_misses (hmiss (by decide)) <|
    .orElse_of_misses (hmiss (by decide)) <| .orElse_of_misses (hmiss (by decide)) <|
    .orElse_of_misses (hmiss (by decide)) h)
  exact misses_token_of_head (by decide) (hhead left)

theorem readsBack_unit {name : UnitName} (h : name.WellFormed) (hlimits : name.InLimits) :
    SourceReadsBack (.unit name) name.written := by
  refine .of_rule (opens_unitName name) fun allowance => readsBack_sourceRule_of_head
    (fun left c hc => ?_) ((readsBack_unitName h hlimits separators_subset).map _)
  cases name with
  | atom a => exact (Option.mem_some_iff.mp hc) ▸ by decide
  | number n => exact ((opensNumber_intText n).head? left c hc).2.2

/-- No source is found in front of the end of a list. -/
theorem misses_source (allowance : Nat) (h : EndsIn [']'] left) :
    MissesUnless (· = .tooDeep) (source allowance) left := by
  have hhead : ∀ c ∈ left.head?, c = ']' := fun c hc => List.mem_singleton.mp (h c hc)
  have hmiss : ∀ {tag : String} {p : Parser Source}, tag.toList.head?.any Char.isLower = true →
      MissesUnless (· = .tooDeep) (tagged tag p) left :=
    fun htag => misses_keyword_of_head htag fun c hc => hhead c hc ▸ by decide
  cases allowance with
  | zero => exact .abort rfl
  | succ allowance =>
      have hword : MissesUnless (· = .tooDeep) (token "unknown") left :=
        misses_token_of_head (by decide) fun c hc => hhead c hc ▸ by decide
      have hatom : MissesUnless (· = .tooDeep) atom left :=
        misses_atom fun c hc => hhead c hc ▸ by decide
      have hinteger : MissesUnless (· = .tooDeep) signedInteger left :=
        misses_signedInteger fun c hc => hhead c hc ▸ by decide
      exact .labeled _ (.orElse hword.map <| .orElse (hmiss (by decide)) <|
        .orElse (hmiss (by decide)) <| .orElse (hmiss (by decide)) <|
        .orElse (hmiss (by decide)) <| .orElse (hmiss (by decide)) <|
        .map (.labeled _ (.orElse hatom.map hinteger.map)))

theorem readsBack_inference {rule : Atom} (h : rule.WellFormed)
    {infos : List (Info × List Char)} (hinfos : ∀ piece ∈ infos, InfoReadsBack piece.1 piece.2)
    {parents : List (Parent × List Char)}
    (hparents : ∀ piece ∈ parents, ParentReadsBack piece.1 piece.2) :
    SourceReadsBack (.inference rule (infos.map Prod.fst) (parents.map Prod.fst))
      (applied "inference" [rule.written, bracketed (infos.map Prod.snd),
        bracketed (parents.map Prod.snd)]) := by
  have hrule : ReadsBack [','] atom rule rule.written := readsBack_atom h (by decide)
  refine .of_rule (opens_applied (by decide) _) fun allowance => .labeled _ ?_
  have hlist : ReadsBack [','] (Grammar.infos allowance) (infos.map Prod.fst)
      (bracketed (infos.map Prod.snd)) := readsBack_infoList hinfos (by decide) allowance
  have hmore : ReadsBack [')'] (bracketList (parent allowance)) (parents.map Prod.fst)
      (bracketed (parents.map Prod.snd)) :=
    readsBack_bracketList (fun piece hpiece => ⟨(hparents piece hpiece).reads allowance,
      (hparents piece hpiece).opens⟩) (fun hleft => .labeled _ (misses_source allowance hleft).bind)
      (by decide)
  have hinference : ReadsBack [')'] (inference allowance (parent allowance))
      (.inference rule (infos.map Prod.fst) (parents.map Prod.fst))
      (rule.written ++ ',' :: (bracketed (infos.map Prod.snd) ++
        ',' :: bracketed (parents.map Prod.snd))) :=
    hrule.bind_cons ((hlist.comma (opens_bracketed _)).bind_cons
      ((hmore.comma (opens_bracketed _)).map _) (List.mem_singleton.mpr rfl))
      (List.mem_singleton.mpr rfl)
  refine .orElse_of_misses (fun left => .map (misses_token (by decide) _ left)) <|
    .orElse_of_misses (misses_keyword (by decide) _) <|
    .orElse_of_misses (misses_keyword (by decide) _) <|
    .orElse_of_misses (misses_keyword (by decide) _) <|
    .orElse_of_misses (misses_keyword (by decide) _) <| .orElse ?_
  refine ReadsBack.applied_cons ?_ (opens_atom rule) (List.Subset.refl _)
  rw [List.flatMap_cons, List.flatMap_singleton]
  exact hinference

section

variable {s : Source}

/-- Without a colon behind its source a parent has no information. -/
theorem readsBack_bareParent (h : SourceReadsBack s text) : ParentReadsBack (.of s []) text := by
  refine ⟨h.opens, fun allowance => .labeled _ ?_⟩
  have hsource : ReadsBack [',', ']'] (source allowance) s text :=
    (h.reads allowance).mono (by decide)
  have hnone : ReadsBack [',', ']'] (withDefault [] do
      let _ ← operator ":"
      Grammar.infos allowance) [] [] := fun left hleft => by
    have hcolon : MissesUnless (· = .tooDeep) (operator ":") left :=
      misses_operator (c := ':') rfl (hleft.head?_ne (by decide))
    exact .orElse_of_misses hcolon.bind (.pure [] left)
  rw [← List.append_nil text]
  exact hsource.bind (hnone.map (Parent.of s)) fun hleft => hleft

theorem readsBack_notedParent (h : SourceReadsBack s text) {infos : List (Info × List Char)}
    (hinfos : ∀ piece ∈ infos, InfoReadsBack piece.1 piece.2) :
    ParentReadsBack (.of s (infos.map Prod.fst))
      (text ++ ':' :: bracketed (infos.map Prod.snd)) := by
  refine ⟨h.opens.append _, fun allowance => .labeled _ ?_⟩
  have hlist : ReadsBack [',', ']'] (Grammar.infos allowance) (infos.map Prod.fst)
      (bracketed (infos.map Prod.snd)) := readsBack_infoList hinfos (by decide) allowance
  have hsome : ReadsBack [',', ']'] (withDefault [] do
      let _ ← operator ":"
      Grammar.infos allowance) (infos.map Prod.fst) (':' :: bracketed (infos.map Prod.snd)) :=
    (hlist.operator rfl (opens_bracketed _)).orElse
  exact (h.reads allowance).bind_cons (hsome.map (Parent.of s)) (by decide)

end

-- The recursion is on the texts. A source is a part of a parent, and the parents of an
-- inference are parts of a source.
mutual

/-- Sources are read back from their texts. -/
theorem readsBack_source {s : Source} {text : List Char} :
    s.Written text → s.WellFormed → SourceReadsBack s text
  | .unknown, _ => readsBack_unknown
  | .unit hlimits, .unit h => readsBack_unit h hlimits
  | .file _ hlimits, .file h hunit => readsBack_file h hunit hlimits
  | .theory _ hinfos, .theory h hwell => readsBack_theory hinfos hwell h
  | .creator _ hinfos, .creator h hwell => readsBack_creator hinfos hwell h
  | .introduced _ hinfos, .introduced h hwell => readsBack_introduced hinfos hwell h
  | .inference _ hinfos hparents, .inference h hwell hwells =>
    readsBack_inference h
      (fun piece hpiece => readsBack_info (hinfos piece hpiece)
        (hwell _ (List.mem_map_of_mem hpiece)))
      fun piece hpiece => readsBack_parent (hparents piece hpiece)
        (hwells _ (List.mem_map_of_mem hpiece))

/-- Parents are read back from their texts. -/
theorem readsBack_parent {p : Parent} {text : List Char} :
    p.Written text → p.WellFormed → ParentReadsBack p text
  | .bare h, .of hwell _ => readsBack_bareParent (readsBack_source h hwell)
  | .noted h hinfos, .of hwell hwells =>
    readsBack_notedParent (readsBack_source h hwell) fun piece hpiece =>
      readsBack_info (hinfos piece hpiece) (hwells _ (List.mem_map_of_mem hpiece))

end

section

variable {f : Formula}

variable (h : Read.formula (some .fof) "p" = .ok f)

include h

end

end Writing

end Tptp
