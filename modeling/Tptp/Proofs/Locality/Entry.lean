import Tptp.Proofs.Composed.Grammar
import Tptp.Proofs.Locality.Resume

/-!
# Entries and What Follows Them

An entry takes a full stop at its end, and after that only layout.

So there are two ways in which an entry can stand in front of more text. If the full
stop on the path belongs to a later entry, the text that is added does not matter. If
it is the one that closes the entry, and only layout follows it up to the end, then
everything but that layout is read as before, and the layout goes on in the added text.

An inclusion is tried before a unit, and if it fails the unit is tried from the same
place. That does not do any harm, since no unit starts with the word that an inclusion
starts with.

## Main definitions

* `closed`: A parser in front of a full stop.
* `Grammar.openUnit`: A unit without its full stop.

## Theorems

* `agrees_closed`, `resumes_closed`: Parsers in front of a full stop.
* `Grammar.exists_stop`: An entry goes up to a full stop.
* `Grammar.agrees_entry`: More text does not matter to an entry that is not the last.
* `Grammar.resumes_entry`: The last entry of a text is read as before.
-/

namespace Tptp

namespace Reading

variable {α : Type}

/-- A parser in front of a full stop. -/
def closed (p : Parser α) : Parser α := do
  let value ← p
  let _ ← Parser.operator "."
  return value

/-- A full stop and the layout behind it. -/
theorem operator_stop (text : List Char) :
    Parser.operator "." (.ofList ('.' :: text)) =
      (Parser.skipLayout (.ofList text)).map fun _ => "." := by
  have hskip : ((fun _ => ".") <$> (Parser.skipLayout : Parser Unit) : Parser String) (.ofList text) =
      (Parser.skipLayout (.ofList text)).map fun _ => "." := Parser.map_apply _ _ _
  rw [← hskip]
  exact Result.after_none _

/-- A parser in front of a full stop ends behind it and the layout there. -/
theorem closed_eq {p : Parser α} {rest : Rest} {value : α} {left : List Char}
    (h : (p rest).outcome = .done value (.ofList ('.' :: left))) :
    closed p rest =
      ((Parser.skipLayout (.ofList left)).map fun _ => value).after (p rest).dropped := by
  rw [closed, Parser.bind_apply]
  rcases hresult : p rest with ⟨outcome, dropped⟩
  rw [hresult] at h
  change outcome = _ at h
  subst h
  change Result.after dropped (((fun _ => value) <$> Parser.operator ".") _) = _
  rw [Parser.map_apply, operator_stop, Result.map_map]

/-- A parser in front of a full stop has come to one if it is done. -/
theorem closed_done {p : Parser α} {text : List Char} {value : α} {after : Rest}
    (hwithin : Within text (p (.ofList text)))
    (h : (closed p (.ofList text)).outcome = .done value after) :
    ∃ left, (p (.ofList text)).outcome = .done value (.ofList ('.' :: left)) ∧
      (Parser.skipLayout (.ofList left)).outcome = .done () after := by
  rcases Parser.bind_done h with ⟨found, middle, hp, hclosing⟩
  rcases Parser.bind_done hclosing with ⟨sign, last, hstop, hpure⟩
  rw [Parser.outcome_pure, Outcome.done.injEq] at hpure
  rcases hpure with ⟨rfl, rfl⟩
  rcases hwithin.path hp with ⟨behind, rfl, -⟩
  rcases Parser.bind_done hstop with ⟨_, start, hsign, -⟩
  rcases (relates_expect fun h => h).sound hsign with ⟨left, -, -, hleft⟩
  change behind = '.' :: left at hleft
  subst hleft
  refine ⟨left, hp, ?_⟩
  rw [operator_stop] at hstop
  rcases hskip : (Parser.skipLayout (.ofList left)).outcome with ⟨_, behind⟩ | _ | _
  · rw [Result.map, hskip, Outcome.map, Outcome.done.injEq] at hstop
    rw [hstop.2]
  · rw [Result.map, hskip, Outcome.map] at hstop
    exact absurd hstop (by simp only [reduceCtorEq, not_false_eq_true])
  · rw [Result.map, hskip, Outcome.map] at hstop
    exact absurd hstop (by simp only [reduceCtorEq, not_false_eq_true])

/-- A point in front of layout that goes to the end of the text is a full stop. -/
theorem fullStop_of_skipLayout {gap : List Char}
    (h : (Parser.skipLayout (.ofList gap)).outcome = .done () (.ofList [])) :
    FullStop ('.' :: gap) := by
  rcases relates_skipLayout.sound h with ⟨left, hleft, hskips, -⟩
  rw [← Rest.ofList_inj hleft] at hskips
  refine ⟨gap, rfl, fun c hc => ?_⟩
  rcases hskips.eq_or_head with rfl | ⟨d, hd, hopens⟩
  · exact absurd hc (Option.not_mem_none c)
  · rw [hd, Option.mem_some_iff] at hc
    subst hc
    rw [Bool.eq_false_iff]
    intro hdigit
    rcases hopens with hblank | rfl | rfl
    · rw [Text.not_isBlank_of_isWordChar _ (Text.isWordChar_of_isDigit hdigit)] at hblank
      exact Bool.false_ne_true hblank
    · exact absurd hdigit (by decide)
    · exact absurd hdigit (by decide)

variable {p : Parser α} {text gap tail : List Char}

/-- More text does not matter in front of a full stop that is not the last one. -/
theorem agrees_operator_stop {stop : List Char} (hpath : Path text stop) (hstop : FullStop stop)
    (htail : tail.head? = some '\n') (hne : text ≠ stop) :
    Agrees stop tail (Parser.operator ".") text := by
  have hwithin : Within text (Parser.expect "operator" "." Rest.startsWith (.ofList text)) := by
    refine within_expect (fun h => h) ?_
    rintro left rfl
    exact path_of_walks (List.all_eq_true.mp (by decide)) left
  have hsign : Agrees stop tail (Parser.expect "operator" "." Rest.startsWith) text := by
    refine .expect (fun h => h) (stopsAtLayout_sign _ (by decide) htail (by decide)) ?_
    rintro left rfl
    exact hpath.behind_step (advance_of_walks (by decide) left) hne
  refine .bind hwithin hsign fun hdone => ?_
  have hlayout := localAt_skipLayout (hsign.behind hdone) hstop htail
  exact .bind within_skipLayout hlayout fun hskip => .pure _ (hlayout.behind hskip)

/-- Unless the parser comes to the last full stop, more text does not matter to it and
    the full stop behind it. -/
theorem agrees_closed {commas : Bool} (hp : Composed false commas p) (hpath : Path text ('.' :: gap))
    (hgap : (Parser.skipLayout (.ofList gap)).outcome = .done () (.ofList []))
    (htail : tail.head? = some '\n')
    (hne : ∀ value, (closed p (.ofList text)).outcome ≠ .done value (.ofList [])) :
    Agrees ('.' :: gap) tail (closed p) text := by
  have hstop := fullStop_of_skipLayout hgap
  have hfirst := hp.localAt text hpath hstop htail
  refine .bind (hp.within text) hfirst fun {value left} hdone => ?_
  -- Had the parser come to the last full stop, it would be done at the end of the text.
  have hleft : left ≠ '.' :: gap := by
    rintro rfl
    refine hne value ?_
    rw [closed_eq hdone]
    exact congrArg (Outcome.map fun _ => value) hgap
  have hclosing := agrees_operator_stop (hfirst.behind hdone) hstop htail hleft
  exact .bind ((Composed.stop rfl : Composed true true _).within left) hclosing fun hdone =>
    .pure _ (hclosing.behind hdone)

/-- Reading goes on with the text behind if a parser comes to the last full stop. -/
theorem resumes_closed {commas : Bool} (hp : Composed false commas p) {value : α}
    (hdone : (closed p (.ofList text)).outcome = .done value (.ofList [])) (later : List Char) :
    Resumes later (fun _ => value) (pure ()) (closed p (.ofList (text ++ '\n' :: later))) := by
  rcases closed_done (hp.within text) hdone with ⟨gap, hvalue, hgap⟩
  rcases (hp.within text).path hvalue with ⟨left, hleft, hpath⟩
  rw [← Rest.ofList_inj hleft] at hpath
  have hline : ('\n' :: later).head? = some '\n' := rfl
  have hstable := (hp.localAt text hpath (fullStop_of_skipLayout hgap) hline).stable
  have hlonger : (p (.ofList (text ++ '\n' :: later))).outcome =
      .done value (.ofList ('.' :: (gap ++ '\n' :: later))) := by
    rw [hstable, Result.extend, hvalue]
    rfl
  rw [closed_eq hlonger, skipLayout_append_line hgap, hstable]
  exact (Resumes.of_skipLayout later fun _ => value).after ((hp.within text).early later)

end Reading

namespace Grammar

open Reading Parser

/-- A unit without its full stop. -/
def openUnit (allowance : Nat) : Parser AnnotatedUnit :=
  language >>= fun language => parens (unitParts language allowance)

theorem inclusion_eq : inclusion = labeled "include" (closed (tagged "include" includedFile)) :=
  rfl

theorem annotatedUnit_eq (allowance : Nat) :
    annotatedUnit allowance = labeled "annotated unit" (closed (openUnit allowance)) := by
  rw [annotatedUnit, closed, openUnit, bind_assoc]

theorem composed_openUnit (allowance : Nat) : Composed false true (openUnit allowance) :=
  composed_language.bind fun language => (composed_unitParts language allowance).parens

theorem composed_openInclusion : Composed false true (tagged "include" includedFile) :=
  Composed.tagged (by decide) composed_includedFile

variable {allowance : Nat}

theorem inclusion_of_closed {rest after : Rest} {value : Include}
    (h : (closed (tagged "include" includedFile) rest).outcome = .done value after) :
    ((Entry.inclusion <$> inclusion) rest).outcome = .done (.inclusion value) after := by
  rw [outcome_map, inclusion_eq, outcome_labeled, h]
  rfl

/-- An entry is an inclusion, or a unit where no inclusion is. -/
theorem entry_done_iff {rest after : Rest} {value : Entry} :
    (entry allowance rest).outcome = .done value after ↔
      (∃ found, value = .inclusion found ∧
        (closed (tagged "include" includedFile) rest).outcome = .done found after) ∨
      ∃ found, value = .unit found ∧
        (∃ failure, ((Entry.inclusion <$> inclusion) rest).outcome = .failed failure) ∧
        (closed (openUnit allowance) rest).outcome = .done found after := by
  constructor
  · intro h
    rcases orElse_done (labeled_done h) with hdone | ⟨hfailed, hdone⟩
    · rcases map_done hdone with ⟨found, hfound, rfl⟩
      exact .inl ⟨found, rfl, labeled_done hfound⟩
    · rcases map_done hdone with ⟨found, hfound, rfl⟩
      rw [annotatedUnit_eq] at hfound
      exact .inr ⟨found, rfl, hfailed, labeled_done hfound⟩
  · rintro (⟨found, rfl, hfound⟩ | ⟨found, rfl, ⟨failure, hfailed⟩, hfound⟩)
    · rw [entry, outcome_labeled, outcome_orElse, inclusion_of_closed hfound]
    · rw [entry, outcome_labeled, outcome_orElse, hfailed, outcome_map, annotatedUnit_eq,
        outcome_labeled, hfound]
      rfl

/-- An entry goes up to a full stop and over the layout behind it. -/
theorem exists_stop {text : List Char} {value : Entry} {after : Rest}
    (h : (entry allowance (.ofList text)).outcome = .done value after) :
    ∃ gap, Path text ('.' :: gap) ∧ (skipLayout (.ofList gap)).outcome = .done () after := by
  have hclosed : ∀ {α : Type} {p : Parser α} {found : α}, Composed false true p →
      (closed p (.ofList text)).outcome = .done found after →
      ∃ gap, Path text ('.' :: gap) ∧ (skipLayout (.ofList gap)).outcome = .done () after := by
    intro α p found hp hfound
    rcases closed_done (hp.within text) hfound with ⟨gap, hdone, hgap⟩
    rcases (hp.within text).path hdone with ⟨left, hleft, hpath⟩
    exact ⟨gap, Rest.ofList_inj hleft ▸ hpath, hgap⟩
  rcases entry_done_iff.mp h with ⟨_, -, hfound⟩ | ⟨_, -, -, hfound⟩
  · exact hclosed composed_openInclusion hfound
  · exact hclosed (composed_openUnit allowance) hfound

/-- More text does not matter to an entry that is not the last one. -/
theorem agrees_entry {text gap tail : List Char} {value : Entry} {left : List Char}
    (hpath : Path text ('.' :: gap))
    (hgap : (skipLayout (.ofList gap)).outcome = .done () (.ofList []))
    (htail : tail.head? = some '\n')
    (hdone : (entry allowance (.ofList text)).outcome = .done value (.ofList left))
    (hleft : left ≠ []) : Agrees ('.' :: gap) tail (entry allowance) text := by
  have hother : ∀ {other}, (entry allowance (.ofList text)).outcome ≠ .done other (.ofList []) := by
    intro other hother
    rw [hdone, Outcome.done.injEq] at hother
    exact hleft (Rest.ofList_inj hother.2)
  -- An alternative that came to the last full stop would be an entry up to the end.
  have hinclusion := agrees_closed composed_openInclusion hpath hgap htail fun found hfound =>
    hother (entry_done_iff.mpr (.inl ⟨found, rfl, hfound⟩))
  have hchosen : Agrees ('.' :: gap) tail (Entry.inclusion <$> inclusion) text :=
    .map (composed_inclusion.within text) (hinclusion.labeled _) _
  refine .labeled _ (hchosen.orElse fun hfailed => ?_)
  have hunit := agrees_closed (composed_openUnit allowance) hpath hgap htail fun found hfound =>
    hother (entry_done_iff.mpr (.inr ⟨found, rfl, ⟨_, hfailed⟩, hfound⟩))
  refine .map ((composed_annotatedUnit allowance).within text) ?_ _
  rw [annotatedUnit_eq]
  exact hunit.labeled _

/-- No language is named by a word that starts as that of an inclusion does. -/
theorem annotatedUnit_of_head? (allowance : Nat) {text : List Char} (h : text.head? = some 'i') :
    ∃ failure, annotatedUnit allowance (.ofList text) = ⟨.failed failure, none⟩ ∧
      failure.left = text.length := by
  -- The names of the languages open with other letters.
  have hfirst : ∀ language : Language,
      ∃ c word, (Vocabulary.canonical language).toList = c :: word ∧ c ≠ 'i' := by
    intro language
    cases language <;> exact ⟨_, _, rfl, by decide⟩
  have hnamed : named Language (.ofList text) =
      (Parser.fail "named Language" (Rest.ofList text) : Result Language) := by
    rw [named]
    split
    · next language hfound =>
        rcases hfirst language with ⟨c, word, hword, hne⟩
        rcases (stands_of_find? hfound).2.starts with ⟨left, rfl⟩
        rw [hword, List.cons_append, List.head?_cons, Option.some.injEq] at h
        exact absurd h hne
    · rfl
  have hlanguage : language (.ofList text) =
      ⟨.failed ⟨(Rest.ofList text).left, ["language", "named Language"]⟩, none⟩ := by
    rw [language, labeled, member, lexeme, bind_apply, hnamed]
    rfl
  refine ⟨⟨_, ["annotated unit", "language", "named Language"]⟩, ?_, Rest.left_ofList text⟩
  rw [annotatedUnit, labeled, bind_apply, hlanguage]
  rfl

/-- The last entry of a text is read as before, and then the layout of the text behind. -/
theorem resumes_entry {text : List Char} {value : Entry}
    (hdone : (entry allowance (.ofList text)).outcome = .done value (.ofList []))
    (later : List Char) :
    Resumes later (fun _ => value) (pure ()) (entry allowance (.ofList (text ++ '\n' :: later))) := by
  rw [entry]
  rcases entry_done_iff.mp hdone with ⟨found, rfl, hfound⟩ | ⟨found, rfl, ⟨failure, hfailed⟩, hfound⟩
  · have hinclusion := ((resumes_closed composed_openInclusion hfound later).labeled "include").map
      Entry.inclusion
    -- The first word is that of an inclusion, so no unit is found where the inclusion fails.
    rcases bind_done hfound with ⟨_, _, hopen, -⟩
    rcases bind_done hopen with ⟨_, _, htoken, -⟩
    rcases bind_done htoken with ⟨_, _, hword, -⟩
    rcases (relates_expect fun h => (Bool.and_eq_true _ _ ▸ h).1).sound hword with ⟨left, -, -, rfl⟩
    have hhead : ("include".toList ++ left ++ '\n' :: later).head? = some 'i' := rfl
    rcases annotatedUnit_of_head? allowance hhead with ⟨failure, hunit, hleft⟩
    have hother : (Entry.unit <$> annotatedUnit allowance)
        (.ofList ("include".toList ++ left ++ '\n' :: later)) = ⟨.failed failure, none⟩ := by
      rw [Parser.map_apply, hunit]
      rfl
    refine (hinclusion.orElse hother ?_).labeled "unit"
    rw [hleft, List.length_append, List.length_cons]
    omega
  · rcases exists_stop hdone with ⟨gap, hpath, hgap⟩
    have hline : ('\n' :: later).head? = some '\n' := rfl
    -- The attempt at an inclusion has failed in front of the last full stop, and fails again.
    have hinclusion := agrees_closed composed_openInclusion hpath hgap hline fun found hfound => by
      rw [inclusion_of_closed hfound] at hfailed
      exact absurd hfailed (by simp only [reduceCtorEq, not_false_eq_true])
    have hunit := (resumes_closed (composed_openUnit allowance) hfound later).labeled
      "annotated unit"
    rw [← annotatedUnit_eq] at hunit
    exact Resumes.labeled (.orElse_of_failed ((composed_inclusion.map _).within text)
      ((hinclusion.labeled "include").map (composed_inclusion.within text) _) hfailed
      (hunit.map Entry.unit)) "unit"

end Grammar

end Tptp
