import Tptp.Proofs.Locality.Primitive
import Tptp.Proofs.WholeText

/-!
# Resuming at the Next Line

What a result on a longer text has to do with one on its last lines.

Where one text has come to its end, reading the longer one goes on with the layout in
front of the other text. From there on everything is as it is in the other text by
itself: values get others in front, and failures from before are further from the end
than any failure to come, so they are not the ones that are reported.

Skipping the layout may fail, at a comment that is never closed. In the longer text
that failure arises inside of the last entry of the first text and may be dropped. It
is still the one whose place is reported, since what else may fail then fails in the
first text.

## Main definitions

* `Early`: Failures in front of the last characters of a text.
* `FailsAt`: The place of the failure to be reported.
* `Resumes`: Reading goes on with another text.

## Theorems

* `skipLayout_append_line`: Layout up to the end goes on in another text.
* `Resumes.after`, `Resumes.map`, `Resumes.labeled`: Values and labels.
* `Resumes.repeatWhile`: Repetition goes on behind an item that ends the first text.
* `Resumes.whole`: Up to the end of the other text.
-/

namespace Tptp

namespace Reading

variable {α β γ : Type}

/-- A result with another value. -/
def Result.map (f : α → β) (result : Result α) : Result β :=
  ⟨result.outcome.map f, result.dropped⟩

theorem Result.map_after (f : α → β) (record : Option Failure) (result : Result α) :
    (result.after record).map f = (result.map f).after record := rfl

theorem Result.map_map (g : β → γ) (f : α → β) (result : Result α) :
    (result.map f).map g = result.map fun value => g (f value) := by
  rcases result with ⟨_ | _ | _, dropped⟩ <;> rfl

theorem Result.after_after (earlier record : Option Failure) (result : Result α) :
    (result.after record).after earlier = result.after (Failure.later earlier record) := by
  simp only [Result.after, Failure.later_assoc]

/-- No failure before changes nothing. -/
theorem Result.after_none (result : Result α) : result.after none = result := by
  rw [Result.after, Failure.none_later]

/-- Behind a step that drops no failure everything is as if it had not been taken. -/
theorem Parser.bind_of_done {p : Parser α} {next : α → Parser β} {rest after : Rest} {a : α}
    (h : p rest = ⟨.done a after, none⟩) : (p >>= next) rest = next a after := by
  rw [bind_apply, h]
  exact Result.after_none _

theorem Result.cons_eq_map (value : α) (result : Result (List α)) :
    result.cons value = result.map (value :: ·) := by
  rcases result with ⟨_ | _ | _, dropped⟩ <;> rfl

theorem Parser.map_apply (f : α → β) (p : Parser α) (rest : Rest) :
    (f <$> p) rest = (p rest).map f := by
  rw [Parser.map_eq_bind, Parser.bind_apply]
  rcases p rest with ⟨_ | _ | _, dropped⟩
  · change Result.after dropped ⟨_, none⟩ = _
    rw [Result.after, Failure.later_none]
    rfl
  · rfl
  · rfl

/-- The failures on record have more than so many characters left. -/
def Early (n : Nat) (record : Option Failure) : Prop :=
  ∀ failure ∈ record, (n : Int) < failure.left

theorem Early.none (n : Nat) : Early n none :=
  fun _ hmem => absurd hmem (Option.not_mem_none _)

theorem Early.later {n : Nat} {a b : Option Failure} (ha : Early n a) (hb : Early n b) :
    Early n (Failure.later a b) :=
  fun failure hmem => (Failure.mem_later hmem).elim (ha failure) (hb failure)

/-- Failures in a text are early if another line comes behind it. -/
theorem Within.early {text : List Char} {result : Result α} (h : Within text result)
    (later : List Char) :
    Early later.length (result.dropped.map (Failure.shift ('\n' :: later).length)) := by
  intro failure hmem
  rcases Option.map_eq_some_iff.mp hmem with ⟨former, hformer, rfl⟩
  have hleft := (h.dropped former hformer).1
  change (later.length : Int) < former.left + (later.length + 1 : Nat)
  omega

/-- The result is a failure, and the one to be reported has so many characters left. -/
def FailsAt (left : Int) (result : Result α) : Prop :=
  ∃ failure record reported, result = ⟨.failed failure, record⟩ ∧
    Failure.later record (some failure) = some reported ∧ reported.left = left

namespace FailsAt

variable {left : Int} {result : Result α} {p q : Parser α} {rest : Rest}

/-- Early failures do not hide the one to be reported. -/
theorem after (h : FailsAt left result) {n : Nat} {record : Option Failure}
    (hrecord : Early n record) (hn : left ≤ n) : FailsAt left (result.after record) := by
  rcases h with ⟨failure, dropped, reported, rfl, hlater, rfl⟩
  refine ⟨failure, Failure.later record dropped, reported, rfl, ?_, rfl⟩
  rw [Failure.later_assoc, hlater]
  rcases record with _ | former
  · rfl
  · have hlt := hrecord former rfl
    exact if_pos (by omega)

theorem map (h : FailsAt left result) (f : α → β) : FailsAt left (result.map f) := by
  rcases h with ⟨failure, record, reported, rfl, hlater, hleft⟩
  exact ⟨failure, record, reported, rfl, hlater, hleft⟩

/-- The failure that is reported arose in the text. -/
theorem le_length {text : List Char} (h : FailsAt left result) (hwithin : Within text result) :
    left ≤ text.length := by
  rcases h with ⟨failure, record, reported, rfl, hlater, rfl⟩
  rcases Failure.mem_later (Option.mem_def.mpr hlater) with hmem | hmem
  · exact (hwithin.dropped reported hmem).2
  · exact Option.some.inj hmem ▸ (hwithin.failed rfl).2

theorem bind (h : FailsAt left (p rest)) (next : α → Parser β) :
    FailsAt left ((p >>= next) rest) := by
  rcases h with ⟨failure, record, reported, hp, hlater, hleft⟩
  rw [Parser.bind_apply, hp]
  exact ⟨failure, record, reported, rfl, hlater, hleft⟩

theorem repeatWhile {inSight : Rest → Bool} (h : FailsAt left (p rest))
    (hsight : inSight rest = true) : FailsAt left (Parser.repeatWhile inSight p rest) := by
  rcases h with ⟨failure, record, reported, hp, hlater, hleft⟩
  rw [repeatWhile_apply, if_pos hsight, hp]
  exact ⟨failure, record, reported, rfl, hlater, hleft⟩

/-- A label leaves the place, so it does not change which failure is reported. -/
theorem labeled (h : FailsAt left (p rest)) (label : String) :
    FailsAt left (Parser.labeled label p rest) := by
  rcases h with ⟨failure, record, reported, hp, hlater, hleft⟩
  rw [Parser.labeled, hp]
  rcases record with _ | former
  · rw [Failure.none_later, Option.some.injEq] at hlater
    exact ⟨_, _, _, rfl, rfl, hlater ▸ hleft⟩
  · simp only [Failure.later] at hlater
    split at hlater
    · next hle => exact ⟨_, _, _, rfl, if_pos hle, Option.some.inj hlater ▸ hleft⟩
    · next hnot => exact ⟨_, _, _, rfl, (if_neg hnot).trans hlater, hleft⟩

/-- A second alternative may fail at once, further from the end. -/
theorem orElse {failure : Failure} (h : FailsAt left (p rest))
    (hq : q rest = ⟨.failed failure, none⟩) (hleft : left < failure.left) :
    FailsAt left ((p <|> q) rest) := by
  rcases h with ⟨found, record, reported, hp, hlater, rfl⟩
  have hchoice : (p <|> q) rest = (q rest).after (Failure.later record (some found)) := by
    change Parser.orElse p q rest = _
    rw [Parser.orElse, hp]
    rfl
  rw [hchoice, hq, hlater]
  exact ⟨failure, some reported, reported, rfl, if_neg (by omega), rfl⟩

end FailsAt

/-- Skipping layout that reached the end of a text goes on in the next line. -/
theorem skipLayout_append_line {text : List Char}
    (h : (Parser.skipLayout (.ofList text)).outcome = .done () (.ofList []))
    (later : List Char) : Parser.skipLayout (.ofList (text ++ '\n' :: later)) =
      Parser.skipLayout (.ofList later) := by
  rcases relates_skipLayout.sound h with ⟨left, hleft, hskips, -⟩
  rw [← Rest.ofList_inj hleft] at hskips
  exact skipLayout_eq_of_skips (hskips.append_line later)

theorem skipLayout_of_done {text : List Char} {after : Rest}
    (h : (Parser.skipLayout (.ofList text)).outcome = .done () after) :
    Parser.skipLayout (.ofList text) = ⟨.done () after, none⟩ := by
  rcases skipLayout_cases text with ⟨left, hskip⟩ | ⟨failure, hskip⟩
  · rw [hskip] at h ⊢
    exact congrArg (fun outcome => (⟨outcome, none⟩ : Result Unit)) h
  · rw [hskip] at h
    exact absurd h (by simp only [reduceCtorEq, not_false_eq_true])

/-- Behind the layout of a text a parser goes on as it would go on there. -/
theorem skipLayout_bind {rest after : Rest} (h : Parser.skipLayout rest = ⟨.done () after, none⟩)
    (next : Parser β) : (Parser.skipLayout *> next) rest = next after :=
  Parser.bind_of_done h

theorem skipLayout_bind_failed {rest : Rest} {failure : Failure}
    (h : Parser.skipLayout rest = ⟨.failed failure, none⟩) (next : Parser β) :
    (Parser.skipLayout *> next) rest = ⟨.failed failure, none⟩ := by
  have hbind := Parser.bind_apply (Parser.skipLayout : Parser Unit) (fun _ => next) rest
  simp only [h] at hbind
  exact hbind

/-- The result is that of reading the layout of the later text and then what a parser
    reads, with a function applied to the value and with failures before. If skipping
    that layout fails, the place is that of its failure. -/
structure Resumes (later : List Char) (f : α → β) (next : Parser α) (result : Result β) :
    Prop where
  done : ∀ {left}, Parser.skipLayout (.ofList later) = ⟨.done () (.ofList left), none⟩ →
    ∃ record, Early later.length record ∧ result = ((next (.ofList left)).map f).after record
  failed : ∀ {failure}, Parser.skipLayout (.ofList later) = ⟨.failed failure, none⟩ →
    FailsAt failure.left result

namespace Resumes

variable {later : List Char} {f : α → β} {next : Parser α} {result : Result β}

theorem after (h : Resumes later f next result) {record : Option Failure}
    (hrecord : Early later.length record) : Resumes later f next (result.after record) := by
  constructor
  · intro left hskip
    rcases h.done hskip with ⟨former, hformer, rfl⟩
    exact ⟨_, hrecord.later hformer, Result.after_after _ _ _⟩
  · intro failure hskip
    have hinside : failure.Inside later :=
      within_skipLayout.failed (congrArg Result.outcome hskip)
    exact (h.failed hskip).after hrecord hinside.2

theorem map {q : Parser β} {rest : Rest} (h : Resumes later f next (q rest)) (g : β → γ) :
    Resumes later (fun value => g (f value)) next ((g <$> q) rest) := by
  constructor
  · intro left hskip
    rcases h.done hskip with ⟨record, hrecord, hq⟩
    exact ⟨record, hrecord, by rw [Parser.map_apply, hq, Result.map_after, Result.map_map]⟩
  · exact fun hskip => (h.failed hskip).bind _

/-- A value in front of a list of values. -/
theorem cons {f : α → List β} {result : Result (List β)} (h : Resumes later f next result)
    (value : β) : Resumes later (fun found => value :: f found) next (result.cons value) := by
  constructor
  · intro left hskip
    rcases h.done hskip with ⟨record, hrecord, rfl⟩
    exact ⟨record, hrecord, by rw [Result.cons_eq_map, Result.map_after, Result.map_map]⟩
  · intro failure hskip
    rcases h.failed hskip with ⟨found, record, reported, rfl, hlater, hleft⟩
    exact ⟨found, record, reported, rfl, hlater, hleft⟩

/-- A function of the value may be part of what is read later. -/
theorem of_map {g : α → γ} {f : γ → β} (h : Resumes later (fun value => f (g value)) next result) :
    Resumes later f (g <$> next) result := by
  constructor
  · intro left hskip
    rcases h.done hskip with ⟨record, hrecord, rfl⟩
    exact ⟨record, hrecord, by rw [Parser.map_apply, Result.map_map]⟩
  · exact h.failed

/-- Both parsers may take the same label. -/
theorem labeled {q : Parser β} {rest : Rest} (h : Resumes later f next (q rest)) (label : String) :
    Resumes later f (Parser.labeled label next) (Parser.labeled label q rest) := by
  constructor
  · intro left hskip
    rcases h.done hskip with ⟨record, hrecord, hq⟩
    refine ⟨record, hrecord, ?_⟩
    rw [Parser.labeled, hq, Parser.labeled]
    rcases next (.ofList left) with ⟨_ | _ | _, dropped⟩ <;> rfl
  · exact fun hskip => (h.failed hskip).labeled label

/-- What reads the layout resumes there. -/
theorem of_skipLayout (later : List Char) (f : Unit → β) :
    Resumes later f (pure ()) ((Parser.skipLayout (.ofList later)).map f) := by
  constructor
  · intro left hskip
    refine ⟨none, .none _, ?_⟩
    rw [hskip, Result.after_none]
    rfl
  · intro failure hskip
    rw [hskip]
    exact ⟨failure, none, failure, rfl, rfl, rfl⟩

/-- So does a parser behind that layout. -/
theorem of_skipLayout_bind {text : List Char} (h : Parser.skipLayout (.ofList text) =
    Parser.skipLayout (.ofList later)) (next : Parser β) :
    Resumes later id next ((Parser.skipLayout *> next) (.ofList text)) := by
  constructor
  · intro left hskip
    refine ⟨none, .none _, (skipLayout_bind (h.trans hskip) next).trans ?_⟩
    rw [Result.after_none]
    rcases next (.ofList left) with ⟨_ | _ | _, dropped⟩ <;> rfl
  · exact fun hskip => ⟨_, none, _, skipLayout_bind_failed (h.trans hskip) next, rfl, rfl⟩

/-- A second alternative may fail at once, in front of the later text. -/
theorem orElse {p q : Parser β} {rest : Rest} {value : β} {failure : Failure}
    (h : Resumes later (fun _ => value) (pure ()) (p rest))
    (hq : q rest = ⟨.failed failure, none⟩) (hleft : later.length < failure.left) :
    Resumes later (fun _ => value) (pure ()) ((p <|> q) rest) := by
  constructor
  · intro left hskip
    rcases h.done hskip with ⟨record, hrecord, hp⟩
    have hitem : p rest = ⟨.done value (.ofList left), Failure.later record none⟩ := hp
    exact ⟨record, hrecord, Parser.orElse_of_done hitem⟩
  · intro found hskip
    have hinside : found.Inside later :=
      within_skipLayout.failed (congrArg Result.outcome hskip)
    exact (h.failed hskip).orElse hq (Int.lt_of_le_of_lt hinside.2 hleft)

/-- A first alternative that failed in the text before the later one. -/
theorem orElse_of_failed {p q : Parser β} {text stop : List Char} {failure : Failure}
    (hwithin : Within text (p (.ofList text))) (hp : Agrees stop ('\n' :: later) p text)
    (hfailed : (p (.ofList text)).outcome = .failed failure)
    (h : Resumes later f next (q (.ofList (text ++ '\n' :: later)))) :
    Resumes later f next ((p <|> q) (.ofList (text ++ '\n' :: later))) := by
  have hinside := (hwithin.failed hfailed).1
  have hrecord := hwithin.early later
  rcases hresult : p (.ofList text) with ⟨outcome, dropped⟩
  rw [hresult] at hfailed hrecord
  change outcome = _ at hfailed
  subst hfailed
  -- The failure of the first alternative is on record, further from the end than the later
  -- text.
  have hchoice : (p <|> q) (.ofList (text ++ '\n' :: later)) =
      (q (.ofList (text ++ '\n' :: later))).after (Failure.later
        (dropped.map (Failure.shift ('\n' :: later).length))
        (some (failure.shift ('\n' :: later).length))) := by
    change Parser.orElse p q _ = _
    rw [Parser.orElse, hp.stable, hresult]
    rfl
  rw [hchoice]
  refine h.after (Early.later hrecord fun former hmem => ?_)
  rw [← Option.some.inj hmem]
  change (later.length : Int) < failure.left + (later.length + 1 : Nat)
  omega

/-- Another item of a repetition. -/
theorem repeatWhile {p : Parser β} {value : β} {inSight : Rest → Bool} {rest : Rest}
    (h : Resumes later (fun _ => value) (pure ()) (p rest)) (hsight : inSight rest = true)
    (hsize : later.length < rest.size) :
    Resumes later (value :: ·) (Parser.repeatWhile inSight p)
      (Parser.repeatWhile inSight p rest) := by
  constructor
  · intro left hskip
    rcases h.done hskip with ⟨record, hrecord, hp⟩
    have hitem : p rest = ⟨.done value (.ofList left), record⟩ := by
      rw [hp, Result.after]
      exact congrArg (Result.mk _) (Failure.later_none record)
    -- The loop goes on because the item has taken a character.
    have hless : (Rest.ofList left).size < rest.size := by
      rcases within_skipLayout.path (congrArg Result.outcome hskip) with ⟨last, hlast, hpath⟩
      have hle := hpath.length_le
      rw [hlast, Rest.size_ofList]
      omega
    refine ⟨record, hrecord, ?_⟩
    rw [repeatWhile_apply, if_pos hsight, hitem]
    simp only [if_pos hless]
    rw [Result.cons_eq_map, Result.map_after]
  · exact fun hskip => (h.failed hskip).repeatWhile hsight

/-- The end of the text is that of the later one. -/
theorem whole {q : Parser β} {rest : Rest} (h : Resumes later f next (q rest)) :
    Resumes later f (whole next) (whole q rest) := by
  constructor
  · intro left hskip
    rcases h.done hskip with ⟨record, hrecord, hq⟩
    refine ⟨record, hrecord, ?_⟩
    rw [Reading.whole, Reading.whole, Parser.bind_apply, hq, Parser.bind_apply]
    rcases next (.ofList left) with ⟨⟨value, after⟩ | _ | _, dropped⟩
    · change ((Parser.endOfInput >>= fun _ => (pure (f value) : Parser β)) after).after
        (Failure.later record dropped) =
          ((((Parser.endOfInput >>= fun _ => (pure value : Parser α)) after).after dropped).map
            f).after record
      rw [Result.map_after, Result.after_after, ← Parser.map_apply, map_bind]
      rfl
    · rfl
    · rfl
  · exact fun hskip => (h.failed hskip).bind _

section

variable {next : Parser α}

/-- The value of the later text is part of the value. -/
theorem outcome_done (h : Resumes later f next result) {value : α} {after : Rest}
    (hdone : ((Parser.skipLayout *> next) (.ofList later)).outcome = .done value after) :
    result.outcome = .done (f value) after := by
  rcases skipLayout_cases later with ⟨left, hskip⟩ | ⟨failure, hskip⟩
  · rcases h.done hskip with ⟨record, -, rfl⟩
    rw [skipLayout_bind hskip] at hdone
    change (next (.ofList left)).outcome.map f = _
    rw [hdone]
    rfl
  · rw [skipLayout_bind_failed hskip] at hdone
    exact absurd hdone (by simp only [reduceCtorEq, not_false_eq_true])

/-- Reading is given up where reading the later text is. -/
theorem outcome_aborted (h : Resumes later f next result) {reason : Abort}
    (haborted : ((Parser.skipLayout *> next) (.ofList later)).outcome = .aborted reason) :
    result.outcome = .aborted reason := by
  rcases skipLayout_cases later with ⟨left, hskip⟩ | ⟨failure, hskip⟩
  · rcases h.done hskip with ⟨record, -, rfl⟩
    rw [skipLayout_bind hskip] at haborted
    change (next (.ofList left)).outcome.map f = _
    rw [haborted]
    rfl
  · rw [skipLayout_bind_failed hskip] at haborted
    exact absurd haborted (by simp only [reduceCtorEq, not_false_eq_true])

/-- The failure to be reported is at the place where the one in the later text is. -/
theorem failsAt (h : Resumes later f next result) {place : Int}
    (hwithin : Within later ((Parser.skipLayout *> next) (.ofList later)))
    (hfails : FailsAt place ((Parser.skipLayout *> next) (.ofList later))) :
    FailsAt place result := by
  -- What was dropped before is further from the end than this failure, and does not hide it.
  have hle := hfails.le_length hwithin
  rcases skipLayout_cases later with ⟨left, hskip⟩ | ⟨failure, hskip⟩
  · rcases h.done hskip with ⟨record, hrecord, rfl⟩
    rw [skipLayout_bind hskip] at hfails
    exact (hfails.map f).after hrecord hle
  · rw [skipLayout_bind_failed hskip] at hfails
    rcases hfails with ⟨found, record, reported, hresult, hlater, rfl⟩
    rw [Result.mk.injEq, Outcome.failed.injEq] at hresult
    rcases hresult with ⟨rfl, rfl⟩
    rw [← Option.some.inj hlater]
    exact h.failed hskip

end

end Resumes

end Reading

end Tptp
