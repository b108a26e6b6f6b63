import Mathlib.Order.WithBot
import Tptp.Proofs.Progress.Plan
import Tptp.Proofs.Progress.Settles

/-!
# Descent

Why reading comes to an end.

A call leads to further calls. Either a character has been taken before them, so that there is
less text left, or they are at the same place. Names are therefore given ranks, and a plan may
call at its own place only what has a smaller rank than its name. Behind a character that has
been taken it may call anything. And what a loop repeats has to take a character.

`Plan.Descends` says so about a plan, by recursion on it. Part of it is the promise that the
plan takes a character, which is a promise about names, too, since a plan takes what it calls
to take. The promises about different names rest on each other; they are kept together because
of the descent that they are about. So there is one induction for all of it: on the text that
is left, then on the rank that bounds the calls, then on the plan.

## Main definitions

* `Ranking`: Ranks of names, and the promise that they take a character.
* `Plan.Descends`: The calls of a plan go down, and its loops go on.
* `Plan.Ranked`: The plans of all names descend below their ranks.
* `Plan.Terminates`: What comes of that.

## Theorems

* `Plan.Terminates.bind`, `Plan.Terminates.orElse`, `Plan.Terminates.many`: By constructors.
* `Plan.Descends.terminates`: Plans that descend come to an end, and they move on.
-/

namespace Tptp

namespace Reading

variable {α β : Type} {C : Type → Type 1}

/-- Where names stand among each other. -/
structure Ranking (C : Type → Type 1) where
  /-- A name calls at its own place only names of a smaller rank. -/
  rank : {α : Type} → C α → Nat
  /-- The name takes a character. -/
  takes : {α : Type} → C α → Bool

namespace Plan

/-- At its own place the plan calls only what has a rank below the limit, what it repeats
    takes a character, and it takes one itself if that is promised. -/
def Descends (K : Ranking C) : {α : Type} → Plan C α → WithTop Nat → Bool → Prop
  | _, .pure _, _, takes => takes = false
  | _, @step _ _ takes' _ _, _, takes => takes = true → takes' = true
  | _, .layout, _, takes => takes = false
  | _, .bind first next, limit, takes =>
      -- Behind a first step that takes a character, anything may be called.
      (first.Descends K limit false ∧ ∀ value, (next value).Descends K limit takes) ∨
        first.Descends K limit true ∧ ∀ value, (next value).Descends K ⊤ false
  | _, .labeled _ inner, limit, takes => inner.Descends K limit takes
  | _, .orElse first second, limit, takes =>
      first.Descends K limit takes ∧ second.Descends K limit takes
  | _, .look _ first second, limit, takes =>
      first.Descends K limit takes ∧ second.Descends K limit takes
  | _, .many item, limit, takes => takes = false ∧ item.Descends K limit true
  | _, .repeatWhile _ item, limit, takes => takes = false ∧ item.Descends K limit true
  | _, .call name, limit, takes =>
      .some (K.rank name) < limit ∧ (takes = true → K.takes name = true)

/-- The stages that the plan enters, and those that they enter, come to an end. The plan has an
    outcome, whatever the allowance, and it moves on. -/
structure Terminates (R : Rules C) (plan : Plan C α) (rest : Rest) (takes : Bool) : Prop where
  accessible : Acc (fun inner stage : Stage C => stage.Enters R inner) ⟨plan, rest⟩
  settles : ∃ outcome, Settles (fun n => plan.run R.parser n) rest outcome ∧
    outcome.MovesOn rest takes

/-- The plan of every name descends below the rank of it. -/
def Ranked (R : Rules C) (K : Ranking C) : Prop :=
  ∀ {α : Type} (name : C α), (R.plan name).Descends K (.some (K.rank name)) (K.takes name)

variable {K : Ranking C} {R : Rules C} {rest : Rest} {takes takes' : Bool}

namespace Terminates

/-- Where the plan matches, it moves on. -/
theorem of_comes {plan : Plan C α} (h : plan.Terminates R rest takes) {value : α} {after : Rest}
    (hcomes : plan.Comes R rest (.done value after)) :
    rest.Ahead after ∧ (takes = true → after.size < rest.size) := by
  rcases h.settles with ⟨outcome, hsettles, hmoves⟩
  rcases hcomes with ⟨n, hn⟩
  rw [← hsettles.eq_outcome hn nofun] at hmoves
  exact hmoves

/-- The promise that a character is taken may be dropped. -/
theorem mono {plan : Plan C α} (h : plan.Terminates R rest takes)
    (htakes : takes' = true → takes = true) : plan.Terminates R rest takes' := by
  refine ⟨h.accessible, ?_⟩
  rcases h.settles with ⟨outcome, hsettles, hmoves⟩
  refine ⟨outcome, hsettles, ?_⟩
  cases outcome with
  | done value after => exact ⟨hmoves.1, fun h => hmoves.2 (htakes h)⟩
  | failed => exact trivial
  | aborted => exact hmoves

theorem pure (value : α) : (Plan.pure value : Plan C α).Terminates R rest false := by
  refine ⟨Acc.intro _ fun stage h => h.elim, .done value rest, .const rfl nofun, ?_⟩
  exact ⟨.refl rest, nofun⟩

theorem step {p : Parser α} (hp : IsStep takes p) (hin : rest.beyond = 0) :
    (Plan.step p hp : Plan C α).Terminates R rest takes := by
  have hmoves := hp rest hin
  exact ⟨Acc.intro _ fun stage h => h.elim, _, .const rfl hmoves.ne_tooDeep, hmoves⟩

/-- Every round of skipping layout takes a character. -/
theorem layout (hin : rest.beyond = 0) :
    (Plan.layout : Plan C Unit).Terminates R rest false := by
  induction hsize : rest.size using Nat.strongRecOn generalizing rest with
  | _ size ih =>
      rcases hround : Parser.layoutRound? rest with _ | next
      · refine ⟨Acc.intro _ ?_, ?_⟩
        · rintro stage ⟨after, hafter, -⟩
          exact absurd (hround.symm.trans hafter) nofun
        · rcases skipLayout_of_layoutRound?_eq_none hround with ⟨failure, hout⟩ | hout
          · exact ⟨_, .const hout nofun, trivial⟩
          · exact ⟨_, .const hout nofun, rest.ahead_skipWhile _, nofun⟩
      · rcases layoutRound?_progress hin hround with ⟨hahead, hlt, hskip⟩
        have hnext := ih next.size (hsize ▸ hlt) (hahead.beyond_eq.trans hin) rfl
        refine ⟨Acc.intro _ ?_, ?_⟩
        · rintro stage ⟨after, hafter, rfl⟩
          obtain rfl := Option.some.inj (hround.symm.trans hafter)
          exact hnext.accessible
        · rcases hnext.settles with ⟨outcome, hsettles, hmoves⟩
          refine ⟨outcome, hsettles.congr fun n => ?_, hmoves.behind hahead nofun⟩
          exact congrArg Result.outcome hskip

theorem labeled {label : String} {inner : Plan C α} (h : inner.Terminates R rest takes) :
    (inner.labeled label).Terminates R rest takes := by
  refine ⟨Acc.intro _ ?_, ?_⟩
  · rintro stage rfl
    exact h.accessible
  · rcases h.settles with ⟨outcome, hsettles, hmoves⟩
    have hdeep : ∀ n, (inner.run R.parser n rest).outcome = .aborted .tooDeep →
        ((inner.labeled label).run R.parser n rest).outcome = .aborted .tooDeep := by
      intro n hn
      rw [run, Parser.outcome_labeled, hn]
    rcases outcome with ⟨value, after⟩ | failure | reason
    · refine ⟨_, hsettles.stop hsettles.ne_tooDeep (fun n hn => ?_) hdeep, hmoves⟩
      rw [run, Parser.outcome_labeled, hn]
    · refine ⟨.failed (failure.within label), hsettles.stop nofun (fun n hn => ?_) hdeep, trivial⟩
      rw [run, Parser.outcome_labeled, hn]
    · refine ⟨_, hsettles.stop hsettles.ne_tooDeep (fun n hn => ?_) hdeep, hmoves⟩
      rw [run, Parser.outcome_labeled, hn]

/-- The second step is entered where the first one is done. -/
theorem bind {first : Plan C α} {next : α → Plan C β} (hfirst : first.Terminates R rest takes)
    (hnext : ∀ value {after}, rest.Ahead after → (takes = true → after.size < rest.size) →
      (next value).Terminates R after takes') :
    (first.bind next).Terminates R rest (takes || takes') := by
  refine ⟨Acc.intro _ ?_, ?_⟩
  · rintro stage (rfl | ⟨value, after, hcomes, rfl⟩)
    · exact hfirst.accessible
    · rcases hfirst.of_comes hcomes with ⟨hahead, hlt⟩
      exact (hnext value hahead hlt).accessible
  · rcases hfirst.settles with ⟨outcome, hsettles, hmoves⟩
    have hdeep : ∀ n, (first.run R.parser n rest).outcome = .aborted .tooDeep →
        ((first.bind next).run R.parser n rest).outcome = .aborted .tooDeep := by
      intro n hn
      rw [run, Parser.outcome_bind, hn]
    rcases outcome with ⟨value, after⟩ | failure | reason
    · rcases hmoves with ⟨hahead, hlt⟩
      rcases (hnext value hahead hlt).settles with ⟨outcome, hsettles', hmoves'⟩
      refine ⟨outcome, hsettles.goOn hsettles' (fun n hn => ?_) hdeep,
        hmoves'.behind hahead fun ht => ?_⟩
      · rw [run, Parser.outcome_bind, hn]
      · rcases Bool.or_eq_true _ _ ▸ ht with ht | ht
        · exact .inr (hlt ht)
        · exact .inl ht
    · refine ⟨.failed failure, hsettles.stop nofun (fun n hn => ?_) hdeep, trivial⟩
      rw [run, Parser.outcome_bind, hn]
    · have hmoves' : (Outcome.aborted reason : Outcome β).MovesOn rest (takes || takes') := hmoves
      refine ⟨_, hsettles.stop hmoves'.ne_tooDeep (fun n hn => ?_) hdeep, hmoves'⟩
      rw [run, Parser.outcome_bind, hn]

theorem orElse {first second : Plan C α} (hfirst : first.Terminates R rest takes)
    (hsecond : second.Terminates R rest takes) :
    (first.orElse second).Terminates R rest takes := by
  refine ⟨Acc.intro _ ?_, ?_⟩
  · rintro stage (rfl | ⟨-, rfl⟩)
    · exact hfirst.accessible
    · exact hsecond.accessible
  · rcases hfirst.settles with ⟨outcome, hsettles, hmoves⟩
    have hdeep : ∀ n, (first.run R.parser n rest).outcome = .aborted .tooDeep →
        ((first.orElse second).run R.parser n rest).outcome = .aborted .tooDeep := by
      intro n hn
      rw [run, Parser.outcome_orElse, hn]
    rcases outcome with ⟨value, after⟩ | failure | reason
    · refine ⟨_, hsettles.stop hsettles.ne_tooDeep (fun n hn => ?_) hdeep, hmoves⟩
      rw [run, Parser.outcome_orElse, hn]
    -- Only a failure of the first alternative leads to the second one.
    · rcases hsecond.settles with ⟨outcome, hsettles', hmoves'⟩
      refine ⟨outcome, hsettles.goOn hsettles' (fun n hn => ?_) hdeep, hmoves'⟩
      rw [run, Parser.outcome_orElse, hn]
    · refine ⟨_, hsettles.stop hsettles.ne_tooDeep (fun n hn => ?_) hdeep, hmoves⟩
      rw [run, Parser.outcome_orElse, hn]

theorem look {test : Rest → Bool} {first second : Plan C α}
    (hfirst : first.Terminates R rest takes) (hsecond : second.Terminates R rest takes) :
    (Plan.look test first second).Terminates R rest takes := by
  have hchosen : (if test rest then first else second).Terminates R rest takes := by
    split
    · exact hfirst
    · exact hsecond
  refine ⟨Acc.intro _ ?_, ?_⟩
  · rintro stage rfl
    exact hchosen.accessible
  · rcases hchosen.settles with ⟨outcome, hsettles, hmoves⟩
    refine ⟨outcome, hsettles.congr fun n => ?_, hmoves⟩
    by_cases htest : test rest = true
    · simp only [run, if_pos htest]
    · simp only [run, if_neg htest]

/-- What a loop comes to behind an item, put together with the item. -/
theorem settles_more {p : Nat → Parser α} {loop : Nat → Parser (List α)} {after : Rest}
    {value : α} {outcome : Outcome (List α)} (hitem : Settles p rest (.done value after))
    (hloop : Settles loop after outcome)
    (hdone : ∀ n, (p n rest).outcome = .done value after →
      (loop n rest).outcome = (loop n after).outcome.map (value :: ·))
    (hdeep : ∀ n, (p n rest).outcome = .aborted .tooDeep →
      (loop n rest).outcome = .aborted .tooDeep) :
    Settles loop rest (outcome.map (value :: ·)) := by
  have hmap : Settles (fun n => (value :: ·) <$> loop n) after (outcome.map (value :: ·)) := by
    refine hloop.stop ?_ (fun n hn => ?_) fun n hn => ?_
    · rcases outcome with _ | _ | reason
      · exact nofun
      · exact nofun
      · exact fun h => hloop.ne_tooDeep (congrArg Outcome.aborted (Outcome.aborted.inj h))
    · rw [Parser.outcome_map, hn]
    · rw [Parser.outcome_map, hn]
      rfl
  refine hitem.goOn hmap (fun n hn => ?_) hdeep
  rw [hdone n hn, Parser.outcome_map]

theorem movesOn_map {outcome : Outcome α} (f : α → β) (h : outcome.MovesOn rest takes) :
    (outcome.map f).MovesOn rest takes := by
  cases outcome with
  | done => exact h
  | failed => exact h
  | aborted => exact h

/-- A loop that tries its item goes on behind it, and it ends in its own way where the item
    fails. -/
theorem settles_loop {item : Plan C α} {loop : Plan C (List α)}
    (ending : Failure → Outcome (List α)) (hitem : item.Terminates R rest true)
    (hmore : ∀ {after}, rest.Ahead after → after.size < rest.size → loop.Terminates R after false)
    (hdone : ∀ n {value after}, (item.run R.parser n rest).outcome = .done value after →
      after.size < rest.size →
        (loop.run R.parser n rest).outcome = (loop.run R.parser n after).outcome.map (value :: ·))
    (hfailed : ∀ n {failure}, (item.run R.parser n rest).outcome = .failed failure →
      (loop.run R.parser n rest).outcome = ending failure)
    (haborted : ∀ n {reason}, (item.run R.parser n rest).outcome = .aborted reason →
      (loop.run R.parser n rest).outcome = .aborted reason)
    (hending : ∀ failure, (ending failure).MovesOn rest false) :
    ∃ outcome, Settles (fun n => loop.run R.parser n) rest outcome ∧
      outcome.MovesOn rest false := by
  rcases hitem.settles with ⟨outcome, hsettles, hmoves⟩
  have hdeep : ∀ n, (item.run R.parser n rest).outcome = .aborted .tooDeep →
      (loop.run R.parser n rest).outcome = .aborted .tooDeep := fun n hn => haborted n hn
  rcases outcome with ⟨value, after⟩ | failure | reason
  -- The check that a character was taken is passed, since the item takes one.
  · rcases hmoves with ⟨hahead, hlt⟩
    rcases (hmore hahead (hlt rfl)).settles with ⟨outcome, hsettles', hmoves'⟩
    exact ⟨_, settles_more hsettles hsettles' (fun n hn => hdone n hn (hlt rfl)) hdeep,
      movesOn_map _ (hmoves'.behind hahead nofun)⟩
  · exact ⟨_, hsettles.stop (hending failure).ne_tooDeep (fun n hn => hfailed n hn) hdeep,
      hending failure⟩
  · have hmoves' : (Outcome.aborted reason : Outcome (List α)).MovesOn rest false := hmoves
    exact ⟨_, hsettles.stop hmoves'.ne_tooDeep (fun n hn => haborted n hn) hdeep, hmoves'⟩

theorem many {item : Plan C α} (hitem : item.Terminates R rest true)
    (hmore : ∀ {after}, rest.Ahead after → after.size < rest.size →
      item.many.Terminates R after false) :
    item.many.Terminates R rest false := by
  refine ⟨Acc.intro _ ?_, settles_loop (fun _ => .done [] rest) hitem hmore ?_ ?_ ?_ ?_⟩
  · rintro stage (rfl | ⟨after, ⟨value, hcomes⟩, rfl⟩)
    · exact hitem.accessible
    · rcases hitem.of_comes hcomes with ⟨hahead, hlt⟩
      exact (hmore hahead (hlt rfl)).accessible
  · intro n value after hn hlt
    rw [run, Parser.outcome_many, hn]
    exact if_pos hlt
  · intro n failure hn
    rw [run, Parser.outcome_many, hn]
  · intro n reason hn
    rw [run, Parser.outcome_many, hn]
  · exact fun _ => ⟨.refl rest, nofun⟩

theorem repeatWhile {inSight : Rest → Bool} {item : Plan C α}
    (hitem : item.Terminates R rest true)
    (hmore : ∀ {after}, rest.Ahead after → after.size < rest.size →
      (item.repeatWhile inSight).Terminates R after false) :
    (item.repeatWhile inSight).Terminates R rest false := by
  refine ⟨Acc.intro _ ?_, ?_⟩
  · rintro stage (⟨-, rfl⟩ | ⟨after, ⟨-, value, hcomes⟩, rfl⟩)
    · exact hitem.accessible
    · rcases hitem.of_comes hcomes with ⟨hahead, hlt⟩
      exact (hmore hahead (hlt rfl)).accessible
  by_cases hsight : inSight rest = true
  · refine settles_loop .failed hitem hmore ?_ ?_ ?_ fun _ => trivial
    · intro n value after hn hlt
      rw [run, Parser.outcome_repeatWhile, if_pos hsight, hn]
      exact if_pos hlt
    · intro n failure hn
      rw [run, Parser.outcome_repeatWhile, if_pos hsight, hn]
    · intro n reason hn
      rw [run, Parser.outcome_repeatWhile, if_pos hsight, hn]
  -- Where no item is in sight, the loop is over, whatever the allowance.
  · have hout : ∀ n, ((item.repeatWhile inSight).run R.parser n rest).outcome = .done [] rest := by
      intro n
      rw [run, Parser.outcome_repeatWhile, if_neg hsight]
    exact ⟨_, (Settles.const (hout 0) nofun).congr fun n => (hout n).trans (hout 0).symm,
      .refl rest, nofun⟩

theorem call {name : C α} (h : (R.plan name).Terminates R rest takes) :
    (Plan.call name).Terminates R rest takes := by
  refine ⟨Acc.intro _ ?_, ?_⟩
  · rintro stage rfl
    exact h.accessible
  · rcases h.settles with ⟨outcome, hsettles, hmoves⟩
    refine ⟨outcome, ?_, hmoves⟩
    rcases R.unfolds name with heq | ⟨hzero, hsucc⟩
    · refine hsettles.congr fun n => ?_
      rw [run, heq]
    · exact hsettles.spend hzero hsucc

end Terminates

/-- A plan comes to an end if what it calls at its own place does, and everything does where
    there is less text. The induction is on the plan. -/
theorem Descends.terminates_of {size : Nat} {limit : WithTop Nat}
    (hless : ∀ {α : Type} {plan : Plan C α} {limit : WithTop Nat} {takes : Bool} {after : Rest},
      plan.Descends K limit takes → after.size < size → after.beyond = 0 →
        plan.Terminates R after takes)
    (hcalls : ∀ {α : Type} (name : C α) {after : Rest}, .some (K.rank name) < limit →
      after.size = size → after.beyond = 0 → (R.plan name).Terminates R after (K.takes name))
    {plan : Plan C α} (h : plan.Descends K limit takes) (hsize : rest.size = size)
    (hin : rest.beyond = 0) : plan.Terminates R rest takes := by
  induction plan generalizing takes rest with
  | pure value =>
      obtain rfl : takes = false := h
      exact .pure value
  | step p hp => exact (Terminates.step hp hin).mono h
  | layout =>
      obtain rfl : takes = false := h
      exact .layout hin
  | bind first next ihfirst ihnext =>
      rcases h with ⟨hfirst, hnext⟩ | ⟨hfirst, hnext⟩
      · refine (ihfirst hfirst hsize hin).bind fun value after hahead _ => ?_
        have hafter := hahead.beyond_eq.trans hin
        -- The second step may be at the place of the first one, or there is less text.
        rcases Nat.lt_or_eq_of_le (hsize ▸ hahead.size_le) with hlt | heq
        · exact hless (hnext value) hlt hafter
        · exact ihnext value (hnext value) heq hafter
      · have hbind := (ihfirst hfirst hsize hin).bind fun value after hahead hlt =>
          hless (hnext value) (hsize ▸ hlt rfl) (hahead.beyond_eq.trans hin)
        exact hbind.mono fun _ => rfl
  | labeled label inner ih => exact (ih h hsize hin).labeled
  | orElse first second ihfirst ihsecond =>
      exact (ihfirst h.1 hsize hin).orElse (ihsecond h.2 hsize hin)
  | look test first second ihfirst ihsecond =>
      exact (ihfirst h.1 hsize hin).look (ihsecond h.2 hsize hin)
  | many item ih =>
      rcases h with ⟨rfl, hitem⟩
      have hloop : item.many.Descends K limit false := ⟨rfl, hitem⟩
      exact (ih hitem hsize hin).many fun hahead hlt =>
        hless hloop (hsize ▸ hlt) (hahead.beyond_eq.trans hin)
  | repeatWhile inSight item ih =>
      rcases h with ⟨rfl, hitem⟩
      have hloop : (item.repeatWhile inSight).Descends K limit false := ⟨rfl, hitem⟩
      exact (ih hitem hsize hin).repeatWhile fun hahead hlt =>
        hless hloop (hsize ▸ hlt) (hahead.beyond_eq.trans hin)
  | call name => exact ((hcalls name h.1 hsize hin).mono h.2).call

/-- If all plans are ranked, plans that descend come to an end. The induction is on the text
    that is left, and then on the limit for the ranks. -/
theorem Descends.terminates (hK : Ranked R K) {plan : Plan C α} {limit : WithTop Nat}
    (h : plan.Descends K limit takes) (hin : rest.beyond = 0) : plan.Terminates R rest takes := by
  induction hsize : rest.size using Nat.strongRecOn generalizing α plan limit takes rest with
  | _ size ihsize =>
      induction limit using WellFoundedLT.induction generalizing α plan takes rest with
      | _ limit ihlimit =>
          refine h.terminates_of (fun h hlt hin => ihsize _ hlt h hin rfl) ?_ hsize hin
          exact fun name after hrank hsize hin => ihlimit _ hrank (hK name) hin hsize

end Plan

end Reading

end Tptp
