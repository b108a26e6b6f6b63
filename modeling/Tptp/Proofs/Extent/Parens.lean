import Tptp.Proofs.Extent.Layout
import Tptp.Proofs.Lexical.Word
import Tptp.Proofs.Stateful
import Tptp.Proofs.Syntax.Signature
import Tptp.Read
import Mathlib.Order.Bounds.Basic

/-!
# Redundant Parentheses

How many parentheses are taken away from around an item.

An item that may stand in parentheses is first tried as it is. If no item opens with a
parenthesis, this comes to nothing as long as one stands in front of it. So all of them are
taken away, and there is no choice in how many are called for behind the item. If one is
missing there, nothing matches; if there are more, they are left for others to read.

What was tried in vain leaves its failure on record. So the state in which the item is read is
not the one in which reading started, moved to another place: it depends on what failed at each
of the parentheses.

Each pair of them spends one unit of the allowance. If they are as many as the allowance, it is
given up before the item is tried.

## Main definitions

* `Signs`: A number of signs, each with the layout behind it.
* `TurnsDownOpenings`: Parsers of items that do not open with a parenthesis.
* `Outcome.closed`: An outcome with a parenthesis behind it.
* `Opened`: The state behind a number of parentheses.
* `MatchesBehind`: The item matches there.
* `ParensBalanced`: What becomes of an item that may stand in parentheses.

## Theorems

* `operator_cases`: A sign stands at a place, or it is missed there.
* `Signs.eq_of_signs`: Signs lead to one place.
* `Signs.exists_of_add`, `Signs.snoc`: Some signs, and some more behind them.
* `optionalParens_of_opened`: An item behind a number of parentheses.
* `TurnsDownOpenings.exists_opened_of_done`: A match is one behind parentheses.
* `optionalParens_balanced`: As many parentheses close as open.
-/

namespace Tptp

namespace Reading

variable {sign : String} {text next : List Char}

/-- A sign that stands at the start of a text is taken, with all the layout behind it. -/
theorem operator_of_signAt (h : SignAt sign text next) (hnext : Significant next) :
    Parser.operator sign (.ofList text) = ⟨.done sign (.ofList next), none⟩ := by
  rcases h with ⟨middle, rfl, hskips⟩
  have hlayout : Parser.lift Parser.skipLayout (Rest.ofList middle) = _ :=
    (skipLayout_eq_of_skips hskips).trans (skipLayout_significant hnext)
  have hstarts : (Rest.ofList (sign.toList ++ middle)).startsWith sign.toList = true :=
    Rest.startsWith_ofList_iff.mpr ⟨middle, rfl⟩
  simp only [Parser.operator, Parser.lexeme, Parser.bind_apply, Parser.expect, hstarts, if_true,
    Rest.drop_ofList, List.drop_left, hlayout, Parser.pure_apply, Result.after,
    Failure.later_none]

/-- A sign stands at a place, or it is missed there. It is missed as well if a comment opens
    behind it that has no end. -/
theorem operator_cases (sign : String) (rest : Rest) :
    (∃ text next, rest = .ofList text ∧ SignAt sign text next ∧ Significant next) ∨
      ∃ failure, (Parser.operator sign rest).outcome = .failed failure := by
  by_cases hstarts : rest.startsWith sign.toList = true
  · have hrest : rest = .ofList rest.chars := by
      rw [Rest.startsWith, Bool.and_eq_true, beq_iff_eq] at hstarts
      exact Rest.ext rfl hstarts.1
    rw [hrest] at hstarts
    rcases Rest.startsWith_ofList_iff.mp hstarts with ⟨middle, htext⟩
    rcases exists_skips middle with ⟨next, hskips, hnext | hopen⟩
    · exact .inl ⟨rest.chars, next, hrest, ⟨middle, htext.symm, hskips⟩, hnext⟩
    · have hlayout : Parser.lift Parser.skipLayout (Rest.ofList middle) = _ :=
        (skipLayout_eq_of_skips hskips).trans (skipLayout_unclosed hopen)
      rw [← htext] at hstarts hrest
      rw [hrest]
      simp only [Parser.operator, Parser.lexeme, Parser.outcome_bind, Parser.expect, hstarts,
        if_true, Rest.drop_ofList, List.drop_left, hlayout]
      exact .inr ⟨_, rfl⟩
  · simp only [Parser.operator, Parser.lexeme, Parser.outcome_bind, Parser.expect, hstarts,
      Bool.false_eq_true, if_false]
    exact .inr ⟨_, rfl⟩

/-- Where a sign is taken it stands. -/
theorem exists_signAt_of_done {rest after : Rest} {found : String}
    (h : (Parser.operator sign rest).outcome = .done found after) :
    ∃ text next, rest = .ofList text ∧ SignAt sign text next ∧ Significant next ∧
      after = .ofList next := by
  rcases operator_cases sign rest with ⟨text, next, rfl, hsign, hnext⟩ | ⟨failure, hmissed⟩
  · rw [operator_of_signAt hsign hnext] at h
    exact ⟨text, next, rfl, hsign, hnext, (Outcome.done.inj h).2.symm⟩
  · exact absurd (hmissed.symm.trans h) nofun

/-- Layout behind a sign ends in one place. -/
theorem SignAt.eq_of_signAt {other : List Char} (h : SignAt sign text next)
    (hother : SignAt sign text other) (hnext : Significant next)
    (hsignificant : Significant other) : next = other := by
  rcases h with ⟨middle, rfl, hskips⟩
  rcases hother with ⟨_, hmiddle, hskips'⟩
  rw [← List.append_cancel_left hmiddle] at hskips'
  exact eq_of_skips hskips hskips' (.inl hnext) (.inl hsignificant)

/-- A number of signs lead from one place to another, each with all the layout behind it. -/
inductive Signs (sign : String) : Nat → Rest → Rest → Prop where
  | zero (rest : Rest) : Signs sign 0 rest rest
  | succ {n : Nat} {text next : List Char} {after : Rest} (h : SignAt sign text next)
      (hnext : Significant next) (others : Signs sign n (.ofList next) after) :
      Signs sign (n + 1) (.ofList text) after

namespace Signs

variable {m n : Nat} {rest middle after other : Rest}

/-- A single sign. -/
theorem one (h : SignAt sign text next) (hnext : Significant next) :
    Signs sign 1 (.ofList text) (.ofList next) :=
  .succ h hnext (.zero _)

/-- Signs lead to one place. -/
theorem eq_of_signs (h : Signs sign n rest after) (hother : Signs sign n rest other) :
    after = other := by
  induction h with
  | zero rest =>
      cases hother
      rfl
  | @succ n text next after h hnext _ ih =>
      -- The place is that of a text, so it has to be named before the other signs are taken apart.
      generalize hrest : Rest.ofList text = rest at hother
      cases hother with
      | succ h' hnext' others' =>
          rw [← Rest.ofList_inj hrest] at h'
          rw [← h.eq_of_signAt h' hnext hnext'] at others'
          exact ih others'

/-- Of more signs the first few lead to a place where the others stand. -/
theorem exists_of_add (h : Signs sign (n + m) rest after) :
    ∃ middle, Signs sign n rest middle ∧ Signs sign m middle after := by
  induction n generalizing rest with
  | zero =>
      rw [Nat.zero_add] at h
      exact ⟨rest, .zero rest, h⟩
  | succ n ih =>
      rw [Nat.succ_add] at h
      cases h with
      | succ hsign hnext others =>
          rcases ih others with ⟨middle, hfirst, hmore⟩
          exact ⟨middle, .succ hsign hnext hfirst, hmore⟩

/-- One more sign behind the others. -/
theorem snoc (h : Signs sign n rest middle) (hmore : Signs sign 1 middle after) :
    Signs sign (n + 1) rest after := by
  induction h with
  | zero => exact hmore
  | succ hsign hnext _ ih => exact .succ hsign hnext (ih hmore)

/-- One character over and over, with no layout between. -/
theorem replicate {c : Char} {left : List Char} (hsign : sign.toList = [c])
    (hc : ∀ text, Significant (c :: text)) (hleft : Significant left) (n : Nat) :
    Signs sign n (.ofList (List.replicate n c ++ left)) (.ofList left) := by
  induction n with
  | zero => exact .zero _
  | succ n ih =>
      rw [List.replicate_succ, List.cons_append]
      refine .succ ⟨_, congrArg (· ++ _) hsign.symm, .nil _⟩ ?_ ih
      cases n with
      | zero => exact hleft
      | succ n => exact hc _

/-- A text that is opened by a parenthesis starts with it. -/
theorem opensWith (h : Signs "(" (n + 1) rest after) : rest.opensWith '(' = true := by
  cases h with
  | succ hsign => exact opensWith_ofList_iff.mpr (hsign.head? rfl)

end Signs

variable {σ α : Type} [Place σ] {p : Nat → ParserOn σ α} {k n : Nat} {state inner : σ}
  {value : α} {middle : Rest}

/-- What becomes of an outcome that a parenthesis has to close. -/
def Outcome.closed : Outcome α → Outcome α
  | .done value middle =>
    match (Parser.operator ")" middle).outcome with
    | .done _ after => .done value after
    | .failed failure => .failed (failure.within "parens")
    | .aborted reason => .aborted reason
  | .failed failure => .failed (failure.within "parens")
  | .aborted reason => .aborted reason

/-- A match is closed, or the parenthesis is missed and it fails. -/
theorem Outcome.closed_cases (value : α) (middle : Rest) :
    (∃ after, Signs ")" 1 middle after ∧
      (Outcome.done value middle).closed = .done value after) ∨
    (¬ ∃ after, Signs ")" 1 middle after) ∧ ∃ failure,
      (Outcome.done value middle).closed = .failed failure := by
  rcases operator_cases ")" middle with ⟨text, next, rfl, hsign, hnext⟩ | ⟨failure, hmissed⟩
  · refine .inl ⟨.ofList next, .one hsign hnext, ?_⟩
    simp only [Outcome.closed, operator_of_signAt hsign hnext]
  · refine .inr ⟨?_, failure.within "parens", by simp only [Outcome.closed, hmissed]⟩
    rintro ⟨after, hone⟩
    cases hone with
    | succ hsign hnext =>
        rw [operator_of_signAt hsign hnext] at hmissed
        cases hmissed

/-- Only a match is closed. -/
theorem Outcome.done_of_closed {outcome : Outcome α} {after : Rest}
    (h : outcome.closed = .done value after) :
    ∃ middle, outcome = .done value middle ∧ Signs ")" 1 middle after := by
  rcases outcome with ⟨found, middle⟩ | _ | _
  · rcases closed_cases found middle with ⟨place, hsigns, hclosed⟩ | ⟨-, failure, hfailed⟩
    · obtain ⟨rfl, rfl⟩ := Outcome.done.inj (hclosed.symm.trans h)
      exact ⟨middle, rfl, hsigns⟩
    · cases hfailed.symm.trans h
  · cases h
  · cases h

/-- Behind an opening parenthesis an item is read, and a parenthesis that closes it. -/
theorem outcome_parens_of_signAt {q : ParserOn σ α} (hrest : Place.rest state = .ofList text)
    (h : SignAt "(" text next) (hnext : Significant next) :
    (Parser.parens q state).outcome =
      (q (Place.moveTo state (.ofList next) none)).outcome.closed := by
  have hopening : Parser.lift (Parser.operator "(") state = ⟨.done "(" (.ofList next), none⟩ := by
    rw [Parser.lift, hrest]
    exact operator_of_signAt h hnext
  rw [Parser.parens, Parser.outcome_labeled_state, Parser.outcome_bind_state, hopening]
  simp only [Parser.outcome_bind_state]
  rcases q (Place.moveTo state (.ofList next) none) with ⟨⟨value, middle⟩ | _ | _, dropped⟩
  · have hclosing : Parser.lift (Parser.operator ")")
        (Place.moveTo (Place.moveTo state (.ofList next) none) middle dropped) =
          Parser.operator ")" middle := by
      rw [Parser.lift, Place.rest_moveTo]
    simp only [hclosing, Parser.pure_state, Place.rest_moveTo, Outcome.closed]
    rcases Parser.operator ")" middle with ⟨_ | _ | _, _⟩ <;> rfl
  · rfl
  · rfl

/-- What is read in parentheses stands between them. -/
theorem parens_state_done {q : ParserOn σ α} {after : Rest}
    (h : (Parser.parens q state).outcome = .done value after) :
    ∃ text next middle, Place.rest state = .ofList text ∧ SignAt "(" text next ∧
      Significant next ∧ (q (Place.moveTo state (.ofList next) none)).outcome = .done value middle ∧
      Signs ")" 1 middle after := by
  rcases Parser.bind_state_done (Parser.labeled_state_done h) with ⟨_, _, _, hopening, -⟩
  rcases exists_signAt_of_done (congrArg Result.outcome hopening) with
    ⟨text, next, hrest, hsign, hnext, -⟩
  rw [outcome_parens_of_signAt hrest hsign hnext] at h
  rcases Outcome.done_of_closed h with ⟨middle, hitem, hclosing⟩
  exact ⟨text, next, middle, hrest, hsign, hnext, hitem, hclosing⟩

/-- No item opens with a parenthesis: where one stands the parser fails. It may give up
    instead only if nothing is left of the allowance. -/
def TurnsDownOpenings (p : Nat → ParserOn σ α) : Prop :=
  ∀ k state, (Place.rest state).opensWith '(' = true →
    (∃ failure, (p k state).outcome = .failed failure) ∨
      k = 0 ∧ (p k state).outcome = .aborted .tooDeep

/-- The state behind a number of opening parentheses, if the item was tried at each of them in
    vain, and the part of the allowance that they leave is `k + 1`. -/
inductive Opened (p : Nat → ParserOn σ α) (k : Nat) : Nat → σ → σ → Prop where
  | zero (state : σ) : Opened p k 0 state state
  | succ {n : Nat} {state inner : σ} {text next : List Char} {failure : Failure}
      {dropped : Option Failure} (hrest : Place.rest state = .ofList text)
      (h : SignAt "(" text next) (hnext : Significant next)
      (hfailed : p (n + (k + 1)) state = ⟨.failed failure, dropped⟩)
      (others : Opened p k n
        (Place.moveTo state (.ofList next) (Failure.later dropped (some failure))) inner) :
      Opened p k (n + 1) state inner

/-- Parentheses that are opened stand in the text. -/
theorem Opened.signs (h : Opened p k n state inner) :
    Signs "(" n (Place.rest state) (Place.rest inner) := by
  induction h with
  | zero state => exact .zero _
  | succ hrest h hnext _ _ ih =>
      rw [Place.rest_moveTo] at ih
      rw [hrest]
      exact .succ h hnext ih

/-- Where no parenthesis opens there is only the item. -/
theorem optionalParens_of_not_opensWith (h : ¬ (Place.rest state).opensWith '(' = true) :
    Parser.optionalParens p (k + 1) state = p k state :=
  if_neg h

/-- Where one does, the item is tried first. -/
theorem optionalParens_of_opensWith (h : (Place.rest state).opensWith '(' = true) :
    Parser.optionalParens p (k + 1) state =
      (p k <|> Parser.parens (Parser.optionalParens p k)) state :=
  if_pos h

/-- Where the item matches it is taken. -/
theorem optionalParens_of_done (h : (p k state).outcome = .done value middle) :
    (Parser.optionalParens p (k + 1) state).outcome = .done value middle := by
  by_cases hopens : (Place.rest state).opensWith '(' = true
  · rw [optionalParens_of_opensWith hopens, Parser.outcome_orElse_state]
    rcases hp : p k state with ⟨_ | _ | _, dropped⟩ <;> rw [hp] at h
    · exact h
    · exact absurd h nofun
    · exact absurd h nofun
  · rw [optionalParens_of_not_opensWith hopens, h]

/-- Where the item does not match, a parenthesis is taken away, and the one that closes it. -/
theorem outcome_optionalParens_of_failed {failure : Failure} {dropped : Option Failure}
    (hrest : Place.rest state = .ofList text) (h : SignAt "(" text next) (hnext : Significant next)
    (hfailed : p k state = ⟨.failed failure, dropped⟩) :
    (Parser.optionalParens p (k + 1) state).outcome =
      (Parser.optionalParens p k (Place.moveTo state (.ofList next)
        (Failure.later dropped (some failure)))).outcome.closed := by
  have hopens : (Place.rest state).opensWith '(' = true := by
    rw [hrest]
    exact (Signs.one h hnext).opensWith
  rw [optionalParens_of_opensWith hopens, Parser.outcome_orElse_state, hfailed]
  refine (outcome_parens_of_signAt ((Place.rest_moveTo _ _ _).trans hrest) h hnext).trans ?_
  rw [Place.moveTo_moveTo, Failure.later_none]

/-- An item in parentheses that were opened: as many have to close, and else it fails. -/
theorem optionalParens_of_opened (h : Opened p k n state inner)
    (hdone : (p k inner).outcome = .done value middle) :
    (∃ after, Signs ")" n middle after ∧
      (Parser.optionalParens p (n + (k + 1)) state).outcome = .done value after) ∨
    (¬ ∃ after, Signs ")" n middle after) ∧ ∃ failure,
      (Parser.optionalParens p (n + (k + 1)) state).outcome = .failed failure := by
  induction h with
  | zero state =>
      rw [Nat.zero_add]
      exact .inl ⟨middle, .zero middle, optionalParens_of_done hdone⟩
  | @succ n state inner text next failure dropped hrest h hnext hfailed others ih =>
      rw [Nat.succ_add, outcome_optionalParens_of_failed hrest h hnext hfailed]
      rcases ih hdone with ⟨last, hlast, hinner⟩ | ⟨hnone, failure, hinner⟩
      · rw [hinner]
        rcases Outcome.closed_cases value last with ⟨after, hclosing, hclosed⟩ | ⟨hnone, hmissed⟩
        · exact .inl ⟨after, hlast.snoc hclosing, hclosed⟩
        · refine .inr ⟨?_, hmissed⟩
          rintro ⟨after, hmore⟩
          -- The last of more parentheses would have to stand at the very place where it is missed.
          rcases hmore.exists_of_add with ⟨place, hplace, hone⟩
          rw [← hlast.eq_of_signs hplace] at hone
          exact hnone ⟨after, hone⟩
      · rw [hinner]
        refine .inr ⟨?_, _, rfl⟩
        rintro ⟨after, hmore⟩
        rcases hmore.exists_of_add with ⟨place, hplace, -⟩
        exact hnone ⟨place, hplace⟩

namespace TurnsDownOpenings

/-- Where a parenthesis opens the item fails, unless nothing is left of the allowance. -/
theorem atOpening (hp : TurnsDownOpenings p) (k : Nat)
    (hopens : (Place.rest state).opensWith '(' = true) :
    (∃ failure dropped, p k state = ⟨.failed failure, dropped⟩) ∨
      k = 0 ∧ ∃ dropped, p k state = ⟨.aborted .tooDeep, dropped⟩ := by
  rcases hp k state hopens with ⟨failure, hfailed⟩ | ⟨hzero, haborted⟩
  · exact .inl ⟨failure, (p k state).dropped, by rw [← hfailed]⟩
  · exact .inr ⟨hzero, (p k state).dropped, by rw [← haborted]⟩

/-- Where parentheses open, the item is tried in vain at each of them. -/
theorem exists_opened (hp : TurnsDownOpenings p) {left : Rest}
    (h : Signs "(" n (Place.rest state) left) :
    ∃ inner, Opened p k n state inner ∧ Place.rest inner = left := by
  -- The state changes with each parenthesis, so the induction is for all of them.
  induction n generalizing state with
  | zero =>
      cases h
      exact ⟨state, .zero state, rfl⟩
  | succ n ih =>
      have hopens := h.opensWith
      generalize hrest : Place.rest state = rest at h
      cases h with
      | succ h hnext others =>
          rcases hp.atOpening (n + (k + 1)) hopens with ⟨failure, dropped, hfailed⟩ | ⟨hzero, -⟩
          · rw [← Place.rest_moveTo state (.ofList _) (Failure.later dropped (some failure))]
              at others
            rcases ih others with ⟨inner, hinner, hleft⟩
            exact ⟨inner, .succ hrest h hnext hfailed hinner, hleft⟩
          -- There is still the unit for the item itself.
          · omega

/-- As many parentheses as the allowance are given up. -/
theorem optionalParens_tooDeep (hp : TurnsDownOpenings p) {allowance : Nat} {left : Rest}
    (hle : allowance ≤ n) (h : Signs "(" n (Place.rest state) left) :
    (Parser.optionalParens p allowance state).outcome = .aborted .tooDeep := by
  induction allowance generalizing state n with
  | zero => rfl
  | succ k ih =>
      -- One more unit of the allowance takes care of one more parenthesis.
      obtain ⟨n, rfl⟩ : ∃ m, n = m + 1 := ⟨n - 1, by omega⟩
      have hopens := h.opensWith
      generalize hrest : Place.rest state = rest at h
      cases h with
      | succ h hnext others =>
          rcases hp.atOpening k hopens with ⟨failure, dropped, hfailed⟩ | ⟨-, dropped, haborted⟩
          · rw [← Place.rest_moveTo state (.ofList _) (Failure.later dropped (some failure))]
              at others
            rw [outcome_optionalParens_of_failed hrest h hnext hfailed, ih (by omega) others]
            rfl
          · rw [optionalParens_of_opensWith hopens, Parser.outcome_orElse_state, haborted]

/-- What is read stands in parentheses that were opened, and as many close it. -/
theorem exists_opened_of_done (hp : TurnsDownOpenings p) {allowance : Nat} {after : Rest}
    (h : (Parser.optionalParens p allowance state).outcome = .done value after) :
    ∃ n k inner middle, allowance = n + (k + 1) ∧ Opened p k n state inner ∧
      (p k inner).outcome = .done value middle ∧ Signs ")" n middle after := by
  induction allowance generalizing state value after with
  | zero => exact absurd h nofun
  | succ k ih =>
      by_cases hopens : (Place.rest state).opensWith '(' = true
      · rcases hp.atOpening k hopens with ⟨failure, dropped, hfailed⟩ | ⟨-, dropped, haborted⟩
        · rw [optionalParens_of_opensWith hopens, Parser.outcome_orElse_state, hfailed] at h
          rcases parens_state_done h with
            ⟨text, next, last, hrest, hopening, hnext, hinner, hclosing⟩
          -- What was dropped in front of the parenthesis is on record behind it.
          rw [Place.rest_moveTo] at hrest
          rw [Place.moveTo_moveTo, Failure.later_none] at hinner
          rcases ih hinner with ⟨n, k, inner, middle, rfl, hopened, hdone, hclosings⟩
          exact ⟨n + 1, k, inner, middle, by omega,
            .succ hrest hopening hnext hfailed hopened, hdone, hclosings.snoc hclosing⟩
        · rw [optionalParens_of_opensWith hopens, Parser.outcome_orElse_state, haborted] at h
          exact absurd h nofun
      · rw [optionalParens_of_not_opensWith hopens] at h
        exact ⟨0, k, state, after, (Nat.zero_add _).symm, .zero state, h, .zero after⟩

end TurnsDownOpenings

/-- The item matches behind a number of opening parentheses, with what they leave of the
    allowance. -/
def MatchesBehind (p : Nat → ParserOn σ α) (allowance n : Nat) (state : σ) (value : α)
    (middle : Rest) : Prop :=
  ∃ k inner, allowance = n + (k + 1) ∧ Opened p k n state inner ∧
    (p k inner).outcome = .done value middle

/-- An item that does not open with a parenthesis matches behind all of them. -/
theorem MatchesBehind.isGreatest (hp : TurnsDownOpenings p) {allowance : Nat}
    (h : MatchesBehind p allowance n state value middle) :
    IsGreatest {m | ∃ left, Signs "(" m (Place.rest state) left} n := by
  rcases h with ⟨k, inner, -, hopened, hdone⟩
  refine ⟨⟨_, hopened.signs⟩, ?_⟩
  rintro m ⟨left, hsigns⟩
  by_contra hlt
  -- Then one more stands in front of the item itself.
  obtain ⟨more, rfl⟩ : ∃ more, m = n + (more + 1) := ⟨m - n - 1, by omega⟩
  rcases hsigns.exists_of_add with ⟨place, hplace, hmore⟩
  rw [← hopened.signs.eq_of_signs hplace] at hmore
  rcases hp.atOpening k hmore.opensWith with ⟨_, _, hfailed⟩ | ⟨-, _, haborted⟩
  · exact absurd (hfailed ▸ hdone) nofun
  · exact absurd (haborted ▸ hdone) nofun

/-- If as many parentheses close behind the item, it matches as a whole. -/
theorem MatchesBehind.done {allowance : Nat} {after : Rest}
    (h : MatchesBehind p allowance n state value middle) (hclosings : Signs ")" n middle after) :
    (Parser.optionalParens p allowance state).outcome = .done value after := by
  rcases h with ⟨k, inner, rfl, hopened, hdone⟩
  rcases optionalParens_of_opened hopened hdone with ⟨last, hlast, houtcome⟩ | ⟨hnone, -⟩
  · rw [hclosings.eq_of_signs hlast, houtcome]
  · exact absurd ⟨after, hclosings⟩ hnone

/-- If fewer close it fails as a whole. -/
theorem MatchesBehind.failed {allowance : Nat}
    (h : MatchesBehind p allowance n state value middle)
    (hnone : ¬ ∃ after, Signs ")" n middle after) :
    ∃ failure, (Parser.optionalParens p allowance state).outcome = .failed failure := by
  rcases h with ⟨k, inner, rfl, hopened, hdone⟩
  rcases optionalParens_of_opened hopened hdone with ⟨after, hclosings, -⟩ | ⟨-, hfailed⟩
  · exact absurd ⟨after, hclosings⟩ hnone
  · exact hfailed

/-- What becomes of an item that may stand in parentheses. -/
structure ParensBalanced (p : Nat → ParserOn σ α) (allowance : Nat) (state : σ) : Prop where
  /-- It matches exactly if it does so behind some parentheses that open, and as many close
      behind it. Its value is the one of the match, which ends behind the last of them. -/
  done_iff : ∀ value after,
    (Parser.optionalParens p allowance state).outcome = .done value after ↔
      ∃ n middle, MatchesBehind p allowance n state value middle ∧ Signs ")" n middle after
  /-- Behind fewer parentheses than the allowance it is tried. -/
  exists_opened : ∀ n left, n < allowance → Signs "(" n (Place.rest state) left →
    ∃ k inner, allowance = n + (k + 1) ∧ Opened p k n state inner ∧ Place.rest inner = left
  /-- It matches behind all that open, or not at all. -/
  isGreatest : ∀ n value middle, MatchesBehind p allowance n state value middle →
    IsGreatest {m | ∃ left, Signs "(" m (Place.rest state) left} n
  /-- If fewer close than open it fails. -/
  failed : ∀ n value middle, MatchesBehind p allowance n state value middle →
    (¬ ∃ after, Signs ")" n middle after) →
      ∃ failure, (Parser.optionalParens p allowance state).outcome = .failed failure
  /-- If more close than open, the match ends in front of those that are too many. -/
  surplus : ∀ n value middle, MatchesBehind p allowance n state value middle →
    ∀ more last, Signs ")" (n + more) middle last → ∃ after,
      (Parser.optionalParens p allowance state).outcome = .done value after ∧
        Signs ")" more after last
  /-- If as many open as the allowance, it is given up. -/
  tooDeep : ∀ n left, Signs "(" n (Place.rest state) left → allowance ≤ n →
    (Parser.optionalParens p allowance state).outcome = .aborted .tooDeep

/-- Parentheses around an item that does not open with one are taken away in pairs, as many as
    there are and as the allowance covers. -/
theorem optionalParens_balanced (hp : TurnsDownOpenings p) (allowance : Nat) (state : σ) :
    ParensBalanced p allowance state where
  done_iff value after := by
    constructor
    · intro h
      rcases hp.exists_opened_of_done h with
        ⟨n, k, inner, middle, hspent, hopened, hdone, hclosings⟩
      exact ⟨n, middle, ⟨k, inner, hspent, hopened, hdone⟩, hclosings⟩
    · rintro ⟨n, middle, hmatches, hclosings⟩
      exact hmatches.done hclosings
  exists_opened n left hlt hopenings := by
    rcases hp.exists_opened (k := allowance - n - 1) hopenings with ⟨inner, hopened, hleft⟩
    exact ⟨_, inner, by omega, hopened, hleft⟩
  isGreatest _ _ _ hmatches := hmatches.isGreatest hp
  failed _ _ _ hmatches hnone := hmatches.failed hnone
  surplus n value middle hmatches more last hclosings := by
    rcases hclosings.exists_of_add with ⟨after, hafter, hmore⟩
    exact ⟨after, hmatches.done hafter, hmore⟩
  tooDeep _ _ hopenings hle := hp.optionalParens_tooDeep hle hopenings

/-- An item that sees only what is left of the text is judged by what it does to texts. -/
theorem turnsDownOpenings_lift {item : Nat → Parser α}
    (h : ∀ {E : Abort → Prop} {k text}, Allows E 1 k → MissesUnless E (item k) ('(' :: text)) :
    TurnsDownOpenings fun k => (Parser.lift (item k) : ParserOn σ α) := by
  intro k state hopens
  rw [Rest.opensWith, decide_eq_true_eq, List.head?_eq_some_iff] at hopens
  rcases hopens with ⟨text, hchars⟩
  have hrest : Place.rest state = .ofList ('(' :: text) := by
    refine Rest.ext hchars ((Place.rest state).beyond_eq.resolve_left ?_)
    rw [hchars]
    exact List.cons_ne_nil _ _
  change (∃ failure, (item k (Place.rest state)).outcome = .failed failure) ∨
    k = 0 ∧ (item k (Place.rest state)).outcome = .aborted .tooDeep
  rw [hrest]
  by_cases hk : k = 0
  · rcases h (E := (· = .tooDeep)) (.inr rfl) with hfailed | ⟨_, rfl, haborted⟩
    · exact .inl hfailed
    · exact .inr ⟨hk, haborted⟩
  · exact .inl (h (E := fun _ => False) (.inl (by omega))).fails

/-- No sort opens with a parenthesis. -/
theorem turnsDownOpenings_polySort :
    TurnsDownOpenings fun k =>
      (Parser.lift (Grammar.polySort k) : ParserOn σ (PolySort SortName)) :=
  turnsDownOpenings_lift (Syntax.misses_polySort rfl)

/-- The sort of all sorts does not either. -/
theorem turnsDownOpenings_kind :
    TurnsDownOpenings fun _ => (Parser.lift Grammar.kind : ParserOn σ Unit) :=
  turnsDownOpenings_lift fun _ => Syntax.misses_kind fun h => absurd (Option.some.inj h) (by decide)

/-- No word of a class opens with a parenthesis, if none is in the class. -/
theorem turnsDownOpenings_word (label : String) {first : Char → Bool} (h : first '(' = false) :
    TurnsDownOpenings fun _ => (Parser.lift (Parser.word label first) : ParserOn σ String) :=
  turnsDownOpenings_lift fun _ => misses_word label fun _ hc => Option.mem_some_iff.mp hc ▸ h

/-- A parenthesis opens no layout. -/
theorem significant_parenthesis {c : Char} (hc : c = '(' ∨ c = ')') (text : List Char) :
    Significant (c :: text) := by
  rcases hc with rfl | rfl
  · exact significant_cons (by decide) (by decide) (by decide)
  · exact significant_cons (by decide) (by decide) (by decide)

theorem optionalParens_balanced_surplus :
    TurnsDownOpenings (fun _ => Parser.lowerWord) ∧
      (Parser.optionalParens (fun _ => Parser.lowerWord) nestingAllowance
        (.ofList "( (a) ) )".toList)).outcome = .done "a" (.ofList [')']) := by
  have hword : TurnsDownOpenings fun _ => Parser.lowerWord :=
    turnsDownOpenings_word _ (by decide)
  refine ⟨hword, ?_⟩
  have hopenings : Signs "(" 2 (.ofList "( (a) ) )".toList) (.ofList "a) ) )".toList) :=
    .succ ⟨_, rfl, .blank (by decide) (.nil _)⟩ (significant_parenthesis (.inl rfl) _)
      (.one ⟨_, rfl, .nil _⟩ (significant_of_isWordChar (by decide) _))
  have hclosings : Signs ")" 2 (.ofList ") ) )".toList) (.ofList [')']) :=
    .succ ⟨_, rfl, .blank (by decide) (.nil _)⟩ (significant_parenthesis (.inr rfl) _)
      (.one ⟨_, rfl, .blank (by decide) (.nil _)⟩ (significant_parenthesis (.inr rfl) _))
  have hbalanced := optionalParens_balanced hword nestingAllowance (.ofList "( (a) ) )".toList)
  rcases hbalanced.exists_opened 2 _ (by decide) hopenings with ⟨k, inner, hspent, hopened, rfl⟩
  exact (hbalanced.done_iff _ _).mpr ⟨2, _, ⟨k, _, hspent, hopened, rfl⟩, hclosings⟩

theorem optionalParens_not_done_of_parens :
    (TurnsDownOpenings (fun _ => Parser.lowerWord) ∧
      Signs "(" 10001 (.ofList (List.replicate 10001 '(' ++ 'a' :: List.replicate 10001 ')'))
        (.ofList ('a' :: List.replicate 10001 ')')) ∧
      (Parser.lowerWord (.ofList ('a' :: List.replicate 10001 ')'))).outcome =
        .done "a" (.ofList (List.replicate 10001 ')')) ∧
      Signs ")" 10001 (.ofList (List.replicate 10001 ')')) (.ofList []) ∧
      ∀ value after, (Parser.optionalParens (fun _ => Parser.lowerWord) nestingAllowance
        (.ofList (List.replicate 10001 '(' ++ 'a' :: List.replicate 10001 ')'))).outcome ≠
          .done value after) ∧
    (TurnsDownOpenings (fun _ => Parser.character " ") ∧
      SignAt "(" "( )".toList " )".toList ∧
      (Parser.character " " (.ofList " )".toList)).outcome = .done " " (.ofList [')']) ∧
      Signs ")" 1 (.ofList [')']) (.ofList []) ∧
      ∀ value after, (Parser.optionalParens (fun _ => Parser.character " ") nestingAllowance
        (.ofList "( )".toList)).outcome ≠ .done value after) := by
  constructor
  · have hword : TurnsDownOpenings fun _ => Parser.lowerWord :=
      turnsDownOpenings_word _ (by decide)
    have hopenings : Signs "(" 10001
        (.ofList (List.replicate 10001 '(' ++ 'a' :: List.replicate 10001 ')'))
        (.ofList ('a' :: List.replicate 10001 ')')) :=
      .replicate rfl (significant_parenthesis (.inl rfl))
        (significant_of_isWordChar (by decide) _) _
    have hclosings : Signs ")" 10001 (.ofList (List.replicate 10001 ')' ++ [])) (.ofList []) :=
      .replicate rfl (significant_parenthesis (.inr rfl)) significant_nil _
    have hends : WordEnds (List.replicate 10001 ')') := by
      intro c hc
      rw [List.eq_of_mem_replicate (List.mem_of_mem_head? hc)]
      decide
    rw [List.append_nil] at hclosings
    have hitem : Parser.lowerWord (.ofList ("a".toList ++ List.replicate 10001 ')')) =
        ⟨.done "a" (.ofList (List.replicate 10001 ')')), none⟩ :=
      word_of_wordEnds _ rfl (by decide) rfl hends
    refine ⟨hword, hopenings, congrArg Result.outcome hitem, hclosings, fun value after h => ?_⟩
    exact absurd ((hword.optionalParens_tooDeep (by decide) hopenings).symm.trans h) nofun
  · have hblank : TurnsDownOpenings fun _ => Parser.character " " :=
      turnsDownOpenings_lift fun _ => by
        refine misses_expect ?_
        intro hprefix
        exact absurd (List.cons_prefix_cons.mp hprefix).1 (by decide)
    -- The blank is layout, so it is gone when the item is tried again.
    have hfailed : (Parser.optionalParens (fun _ => Parser.character " ") nestingAllowance
        (.ofList "( )".toList)).outcome = .failed ⟨1, ["parens", "character  "]⟩ := by
      have hopening : SignAt "(" "( )".toList [')'] := ⟨_, rfl, .blank (by decide) (.nil _)⟩
      refine (outcome_optionalParens_of_failed (k := 3999) rfl hopening
        (significant_parenthesis (.inr rfl) _) rfl).trans ?_
      rw [optionalParens_of_not_opensWith (k := 3998) (by decide)]
      rfl
    refine ⟨hblank, ⟨_, rfl, .nil _⟩, rfl, .one ⟨_, rfl, .nil _⟩ significant_nil, ?_⟩
    intro value after h
    exact absurd (hfailed.symm.trans h) nofun

end Reading

end Tptp
