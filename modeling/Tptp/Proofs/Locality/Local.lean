import Tptp.Proofs.Locality.Within

/-!
# Parsers and What Follows a Text

When more text at the end does not matter to a parser.

A parser agrees with itself on a longer text if it does the same there, but for the
counting of places, which are counted from the end. This is about matches, failures,
reasons to give up and the failures that were dropped alike. What is added starts on
a new line, or else the last word of the text could go on in it.

A parser is local at a place if it agrees with itself whatever is added, provided
that the path from the place leads to a full stop, and if it then stops in front of
the full stop.

## Main definitions

* `Result.extend`: A result with more text at the end.
* `Agrees`: More text at the end does not matter.
* `LocalAt`: No text at the end matters in front of a full stop.

## Theorems

* `Agrees.bind`, `Agrees.orElse`: Agreement by combinators.
* `LocalAt.bind`, `LocalAt.orElse`, `LocalAt.many`: Locality by combinators.
-/

namespace Tptp

namespace Reading

variable {α β : Type}

/-- A failure in a text with more characters at the end. -/
def Failure.shift (n : Nat) (failure : Failure) : Failure :=
  { failure with left := failure.left + n }

/-- An outcome with more text at the end. -/
def Outcome.extend (tail : List Char) : Outcome α → Outcome α
  | .done value rest => .done value (.ofList (rest.chars ++ tail))
  | .failed failure => .failed (failure.shift tail.length)
  | .aborted reason => .aborted reason

/-- A result with more text at the end. -/
def Result.extend (tail : List Char) (result : Result α) : Result α :=
  ⟨result.outcome.extend tail, result.dropped.map (Failure.shift tail.length)⟩

/-- Which of two failures got further does not depend on what follows. -/
theorem Failure.map_shift_later (n : Nat) (a b : Option Failure) :
    (Failure.later a b).map (Failure.shift n) =
      Failure.later (a.map (Failure.shift n)) (b.map (Failure.shift n)) := by
  rcases a with _ | a
  · rw [Failure.none_later, Option.map_none, Failure.none_later]
  rcases b with _ | b
  · rw [Failure.later_none, Option.map_none, Failure.later_none]
  · have hiff : b.left + (n : Int) ≤ a.left + n ↔ b.left ≤ a.left := by omega
    simp only [Failure.later, Option.map_some, Failure.shift, hiff]
    split <;> rfl

theorem Result.extend_after (tail : List Char) (record : Option Failure) (result : Result α) :
    (result.after record).extend tail =
      (result.extend tail).after (record.map (Failure.shift tail.length)) := by
  simp only [Result.extend, Result.after, Failure.map_shift_later]

theorem Result.extend_cons (tail : List Char) (value : α) (result : Result (List α)) :
    (result.cons value).extend tail = (result.extend tail).cons value := by
  rcases result with ⟨_ | _ | _, dropped⟩ <;> rfl

/-- The parser started at a text does the same if the tail is added to the text, and
    stops in front of the full stop. -/
structure Agrees (stop tail : List Char) (p : Parser α) (text : List Char) : Prop where
  stable : p (.ofList (text ++ tail)) = (p (.ofList text)).extend tail
  behind : ∀ {value left}, (p (.ofList text)).outcome = .done value (.ofList left) →
    Path left stop

/-- The parser at this text does the same whatever is added on a new line, if the path
    from the text leads to a full stop. -/
def LocalAt (p : Parser α) (text : List Char) : Prop :=
  ∀ ⦃stop tail : List Char⦄, Path text stop → FullStop stop → tail.head? = some '\n' →
    Agrees stop tail p text

namespace Agrees

variable {stop tail text : List Char} {p q : Parser α}

theorem pure (a : α) (hpath : Path text stop) : Agrees stop tail (pure a : Parser α) text := by
  refine ⟨rfl, fun hdone => ?_⟩
  rw [Parser.outcome_pure, Outcome.done.injEq] at hdone
  exact Rest.ofList_inj hdone.2 ▸ hpath

/-- A failure at the place is one at the same place. -/
theorem fail_extend (label : String) (text tail : List Char) :
    (Parser.fail label (Rest.ofList (text ++ tail)) : Result α) =
      (Parser.fail label (Rest.ofList text) : Result α).extend tail := by
  have hleft : (Rest.ofList (text ++ tail)).left = (Rest.ofList text).left + tail.length := by
    rw [Rest.left_ofList, Rest.left_ofList, List.length_append, Int.natCast_add]
  change (⟨.failed ⟨(Rest.ofList (text ++ tail)).left, [label]⟩, none⟩ : Result α) = _
  rw [hleft]
  rfl

theorem bind {next : α → Parser β} (hwithin : Within text (p (.ofList text)))
    (hp : Agrees stop tail p text) (hnext : ∀ {a left},
      (p (.ofList text)).outcome = .done a (.ofList left) → Agrees stop tail (next a) left) :
    Agrees stop tail (p >>= next) text := by
  constructor
  · rw [Parser.bind_apply, hp.stable, Parser.bind_apply]
    rcases hresult : p (.ofList text) with ⟨⟨a, after⟩ | failure | reason, dropped⟩
    · rw [hresult] at hwithin
      rcases hwithin.path rfl with ⟨left, rfl, -⟩
      have hlater := hnext (congrArg Result.outcome hresult)
      simp only [Result.extend_after, ← hlater.stable]
      rfl
    · rfl
    · rfl
  · intro value left hdone
    rcases Parser.bind_done hdone with ⟨a, middle, hfirst, hsecond⟩
    rcases hwithin.path hfirst with ⟨between, rfl, -⟩
    exact (hnext hfirst).behind hsecond

theorem map (hwithin : Within text (p (.ofList text))) (hp : Agrees stop tail p text)
    (f : α → β) : Agrees stop tail (f <$> p) text :=
  .bind hwithin hp fun hdone => .pure _ (hp.behind hdone)

theorem labeled (label : String) (hp : Agrees stop tail p text) :
    Agrees stop tail (Parser.labeled label p) text := by
  constructor
  · rw [Parser.labeled, hp.stable, Parser.labeled]
    rcases p (.ofList text) with ⟨_ | _ | _, dropped⟩ <;> rfl
  · exact fun hdone => hp.behind (Parser.labeled_done hdone)

/-- The second alternative matters only if the first one fails. -/
theorem orElse (hp : Agrees stop tail p text) (hq : ∀ {failure},
    (p (.ofList text)).outcome = .failed failure → Agrees stop tail q text) :
    Agrees stop tail (p <|> q) text := by
  constructor
  · change Parser.orElse p q _ = (Parser.orElse p q _).extend tail
    rw [Parser.orElse, hp.stable, Parser.orElse]
    rcases hresult : p (.ofList text) with ⟨_ | failure | _, dropped⟩
    · rfl
    · simp only [Result.extend_after, Failure.map_shift_later]
      exact congrArg (Result.after _) (hq (congrArg Result.outcome hresult)).stable
    · rfl
  · intro value left hdone
    rcases Parser.orElse_done hdone with hdone | ⟨⟨_, hfailed⟩, hdone⟩
    · exact hp.behind hdone
    · exact (hq hfailed).behind hdone

end Agrees

/-- A text with more at the end starts as before. -/
theorem Path.head?_append {text stop : List Char} (hpath : Path text stop)
    (hstop : FullStop stop) (tail : List Char) : (text ++ tail).head? = text.head? := by
  rcases text with _ | ⟨c, text⟩
  · exact absurd rfl (hpath.ne_nil hstop)
  · rfl

/-- One more item of a repetition. -/
theorem many_apply (p : Parser α) (rest : Rest) :
    Parser.many p rest =
      match p rest with
      | ⟨.done value after, dropped⟩ =>
        if after.size < rest.size then ((Parser.many p after).after dropped).cons value
        else ⟨.done [value] after, dropped⟩
      | ⟨.failed failure, dropped⟩ => ⟨.done [] rest, Failure.later dropped (some failure)⟩
      | ⟨.aborted reason, dropped⟩ => ⟨.aborted reason, dropped⟩ := by
  rw [Parser.many]
  rcases p rest with ⟨_ | _ | _, dropped⟩
  · change (if _ : _ then _ else _ : Result (List α)) = if _ then _ else _
    split
    · next hlt => exact (if_pos hlt).symm
    · next hge => exact (if_neg hge).symm
  · rfl
  · rfl

/-- As for `many_apply`, with the item in sight. -/
theorem repeatWhile_apply (inSight : Rest → Bool) (p : Parser α) (rest : Rest) :
    Parser.repeatWhile inSight p rest =
      if inSight rest then
        match p rest with
        | ⟨.done value after, dropped⟩ =>
          if after.size < rest.size then
            ((Parser.repeatWhile inSight p after).after dropped).cons value
          else ⟨.done [value] after, dropped⟩
        | ⟨.failed failure, dropped⟩ => ⟨.failed failure, dropped⟩
        | ⟨.aborted reason, dropped⟩ => ⟨.aborted reason, dropped⟩
      else ⟨.done [] rest, none⟩ := by
  rw [Parser.repeatWhile]
  change (if inSight rest then _ else _ : Result (List α)) = _
  split
  · rcases p rest with ⟨_ | _ | _, dropped⟩
    · change (if _ : _ then _ else _ : Result (List α)) = if _ then _ else _
      split
      · next hlt => exact (if_pos hlt).symm
      · next hge => exact (if_neg hge).symm
    · rfl
    · rfl
  · rfl

/-- Less is left with more at the end exactly if less is left without. -/
theorem size_append_lt (left text tail : List Char) :
    (Rest.ofList (left ++ tail)).size < (Rest.ofList (text ++ tail)).size ↔
      (Rest.ofList left).size < (Rest.ofList text).size := by
  simp only [Rest.size_ofList, List.length_append]
  omega

namespace LocalAt

variable {p q : Parser α} {text : List Char}

theorem pure (a : α) (text : List Char) : LocalAt (pure a : Parser α) text :=
  fun _ _ hpath _ _ => .pure a hpath

theorem fail (label : String) (text : List Char) :
    LocalAt (Parser.fail label : Parser α) text := by
  refine fun _ _ _ _ _ => ⟨Agrees.fail_extend label _ _, fun hdone => ?_⟩
  exact absurd hdone (by simp only [Parser.outcome_fail, reduceCtorEq, not_false_eq_true])

theorem abort (reason : Abort) (text : List Char) :
    LocalAt (Parser.abort reason : Parser α) text := by
  refine fun _ _ _ _ _ => ⟨rfl, fun hdone => ?_⟩
  exact absurd hdone (by simp only [Parser.outcome_abort, reduceCtorEq, not_false_eq_true])

theorem bind {next : α → Parser β} (hwithin : Within text (p (.ofList text)))
    (hp : LocalAt p text) (hnext : ∀ {a left},
      (p (.ofList text)).outcome = .done a (.ofList left) → LocalAt (next a) left) :
    LocalAt (p >>= next) text := by
  intro stop tail hpath hstop htail
  have hfirst := hp hpath hstop htail
  exact .bind hwithin hfirst fun hdone => hnext hdone (hfirst.behind hdone) hstop htail

theorem labeled (label : String) (hp : LocalAt p text) :
    LocalAt (Parser.labeled label p) text :=
  fun _ _ hpath hstop htail => (hp hpath hstop htail).labeled label

theorem orElse (hp : LocalAt p text) (hq : LocalAt q text) : LocalAt (p <|> q) text :=
  fun _ _ hpath hstop htail => (hp hpath hstop htail).orElse fun _ => hq hpath hstop htail

theorem look {p : Option Char → Parser α} (hp : ∀ c, LocalAt (p c) text) :
    LocalAt (fun rest => p rest.chars.head? rest) text := by
  intro stop tail hpath hstop htail
  have hchosen := hp text.head? hpath hstop htail
  refine ⟨?_, fun hdone => hchosen.behind hdone⟩
  rw [Rest.chars_ofList, Rest.chars_ofList, hpath.head?_append hstop]
  exact hchosen.stable

/-- Parsers that match again and again stop in front of the full stop, too. -/
theorem path_of_runs (hwithin : ∀ text, Within text (p (.ofList text)))
    (hp : ∀ text, LocalAt p text) {rest last : Rest} {values : List α}
    (h : Parser.Runs p rest values last) {text left stop tail : List Char}
    (hrest : rest = .ofList text) (hlast : last = .ofList left) (hpath : Path text stop)
    (hstop : FullStop stop) (htail : tail.head? = some '\n') : Path left stop := by
  induction h generalizing text with
  | nil => exact Rest.ofList_inj (hrest.symm.trans hlast) ▸ hpath
  | cons item _ ih =>
      rw [hrest] at item
      rcases (hwithin text).path item with ⟨middle, rfl, -⟩
      exact ih rfl hlast ((hp text hpath hstop htail).behind item)

theorem many (hwithin : ∀ text, Within text (p (.ofList text))) (hp : ∀ text, LocalAt p text)
    (text : List Char) : LocalAt (Parser.many p) text := by
  intro stop tail hpath hstop htail
  constructor
  -- An item leaves fewer characters, or the repetition ends with it.
  · induction hlength : text.length using Nat.strongRecOn generalizing text with
    | _ length ih =>
        have hitem := hwithin text
        have hagrees := hp text hpath hstop htail
        rw [many_apply, hagrees.stable, many_apply p (.ofList text)]
        rcases hresult : p (.ofList text) with ⟨⟨value, after⟩ | failure | _, dropped⟩
        · rw [hresult] at hitem
          rcases hitem.path rfl with ⟨left, rfl, -⟩
          have hleft := hagrees.behind (congrArg Result.outcome hresult)
          simp only [Result.extend, Outcome.extend, Rest.chars_ofList, size_append_lt]
          split
          · next hlt =>
              rw [ih left.length (hlength ▸ hlt) left hleft rfl, ← Result.extend_after,
                ← Result.extend_cons]
              rfl
          · rfl
        · simp only [Result.extend, Outcome.extend, Failure.map_shift_later]
          rfl
        · rfl
  · intro value left hdone
    have hloop := Parser.loop_many p (.ofList text)
    rw [hdone] at hloop
    exact path_of_runs hwithin hp hloop.runs rfl rfl hpath hstop htail

theorem repeatWhile (inSight : Option Char → Bool)
    (hwithin : ∀ text, Within text (p (.ofList text))) (hp : ∀ text, LocalAt p text)
    (text : List Char) :
    LocalAt (Parser.repeatWhile (fun rest => inSight rest.chars.head?) p) text := by
  intro stop tail hpath hstop htail
  constructor
  · induction hlength : text.length using Nat.strongRecOn generalizing text with
    | _ length ih =>
        have hitem := hwithin text
        have hagrees := hp text hpath hstop htail
        rw [repeatWhile_apply, hagrees.stable, repeatWhile_apply _ p (.ofList text),
          Rest.chars_ofList, Rest.chars_ofList, hpath.head?_append hstop]
        split
        · rcases hresult : p (.ofList text) with ⟨⟨value, after⟩ | failure | _, dropped⟩
          · rw [hresult] at hitem
            rcases hitem.path rfl with ⟨left, rfl, -⟩
            have hleft := hagrees.behind (congrArg Result.outcome hresult)
            simp only [Result.extend, Outcome.extend, Rest.chars_ofList, size_append_lt]
            split
            · next hlt =>
                rw [ih left.length (hlength ▸ hlt) left hleft rfl, ← Result.extend_after,
                  ← Result.extend_cons]
                rfl
            · rfl
          · rfl
          · rfl
        · rfl
  · intro value left hdone
    have hloop := Parser.loop_repeatWhile (fun rest => inSight rest.chars.head?) p (.ofList text)
    rw [hdone] at hloop
    exact path_of_runs hwithin hp hloop.runs rfl rfl hpath hstop htail

end LocalAt

end Reading

end Tptp
