import Tptp.Reading.Rest
import Tptp.Refusal

/-!
# Parsers

What a parser is, and what becomes of one that does not match.

A parser takes what is left of a text and ends in one of three ways. It is done,
with a value and what is left then. It failed, which is an ordinary event: an
alternative did not match, and another one may. Or it gave up, for a reason that
no alternative can mend, such as a numeral beyond the limit of what is read.

A failure names the place where it arose and the productions that were under way
there, innermost first. Most failures are dropped, since something else matched
or nothing had to; yet when reading comes to nothing the failure to be reported
is the one that got furthest, dropped or not. A parser therefore tells, beside
its outcome, the furthest of the failures it dropped. Of failures at one place
the latest counts. No failure arises while another one is on its way out, so it
suffices to take a failure into account at the moment it is dropped, with the
labels it has collected by then.

A parser of the language sees the text to come and nothing else, so its outcome
and what it dropped are determined by that text alone. A parser that inspects the
reading itself needs a richer state, which knows the record so far, or the text
behind. `Place` says what every such state has: what is left of the text, and a
way to go on from there. Combining parsers never takes more than that, so the
combinators are the same for all states, and a parser that sees only the text to
come is one on any of them.

## Main definitions

* `Failure`: The place of a failure and its labels.
* `Failure.later`: The failure to be reported of two.
* `Abort`, `Abort.message`: The reasons for giving up.
* `Outcome`, `Result`: What a parser comes to.
* `Place`: States at a place in a text.
* `ParserOn`, `Parser`: Parsers on a state, and those that see only what is left
  of the text.
* `Parser.lift`: The latter as the former.
* `Parser.fail`, `Parser.abort`: Failing and giving up.

## Theorems

* `Failure.later_assoc`: Records of failures can be joined in any grouping.
* `Parser.bind_outcome_eq_done_iff`: Two steps match if one after the other does.
* The instance `LawfulMonad (ParserOn σ)`: Steps can be grouped in any way.
* `Parser.lift_pure`, `Parser.lift_bind`: Steps can be lifted one by one.
-/

namespace Tptp

namespace Reading

/-- A place at which a parser did not match. -/
structure Failure where
  /-- The place as a number, which falls as reading goes on. -/
  left : Int
  /-- The labels of the productions that were under way, outermost first. -/
  trail : List String
deriving DecidableEq

namespace Failure

/-- The labels of the productions that were under way, innermost first. -/
def labels (failure : Failure) : List String :=
  failure.trail.reverse

/-- A failure on its way out of one more production. -/
def within (label : String) (failure : Failure) : Failure :=
  { failure with trail := label :: failure.trail }

/-- The failure to be reported, of those of an earlier and of a later record: the
    one that got further, and of two at one place the later one. -/
def later : Option Failure → Option Failure → Option Failure
  | earlier, none => earlier
  | none, some failure => some failure
  -- The later failure has to have at most as much left as the earlier one.
  | some former, some failure => if failure.left ≤ former.left then some failure else some former

/-- An empty record adds nothing behind another one. -/
@[simp] theorem later_none (record : Option Failure) : later record none = record := by
  cases record <;> rfl

/-- An empty record adds nothing in front of another one. -/
@[simp] theorem none_later (record : Option Failure) : later none record = record := by
  cases record <;> rfl

/-- Records of failures can be joined in any grouping. -/
theorem later_assoc (a b c : Option Failure) : later (later a b) c = later a (later b c) := by
  rcases a with _ | a
  · simp only [none_later]
  rcases b with _ | b
  · simp only [none_later, later_none]
  rcases c with _ | c
  · simp only [later_none]
  -- What is left to compare are the places; the order on them is transitive.
  by_cases hba : b.left ≤ a.left <;> by_cases hcb : c.left ≤ b.left
  · have hca : c.left ≤ a.left := Int.le_trans hcb hba
    simp only [later, hba, hcb, hca, if_true]
  · simp only [later, hba, hcb, if_true, if_false]
  · by_cases hca : c.left ≤ a.left <;> simp only [later, hba, hcb, hca, if_true, if_false]
  · have hca : ¬ c.left ≤ a.left := by omega
    simp only [later, hba, hcb, hca, if_false]

end Failure

/-- A reason to give up reading. -/
inductive Abort where
  /-- The text is nested deeper than the allowance. -/
  | tooDeep
  /-- An integer has more digits than are read. -/
  | numeralTooLong (digits : Nat)
  /-- A decimal lies outside of what can be held. -/
  | decimalOutOfRange
  /-- A formula was asked for in no language that there is. -/
  | unknownLanguage
  /-- A value could not be built. -/
  | refused (refusal : Refusal)
  /-- What was asked for does not exist, such as one of no alternatives. -/
  | undefined
deriving DecidableEq

/-- What is said about a reason. -/
def Abort.message : Abort → String
  | .tooDeep => "less deeply nested input"
  | .numeralTooLong digits =>
    "Exceeds the limit (" ++ Numeral.intText Numeral.digitLimit ++
      " digits) for integer string conversion: value has " ++ Numeral.intText digits ++
      " digits; use sys.set_int_max_str_digits() to increase the limit"
  | .decimalOutOfRange => "Decimal out of range"
  | .unknownLanguage => "Unknown language: None"
  | .refused refusal => refusal.message
  | .undefined => "Undefined"

/-- How a parser ends. -/
inductive Outcome (α : Type) where
  /-- It matched: its value, and what is left. -/
  | done (value : α) (rest : Rest)
  /-- It did not match. -/
  | failed (failure : Failure)
  /-- It gave up. -/
  | aborted (reason : Abort)

/-- What a parser comes to. -/
structure Result (α : Type) where
  /-- How it ended. -/
  outcome : Outcome α
  /-- The failure to be reported of those it dropped. -/
  dropped : Option Failure

/-- A result with failures dropped before. -/
def Result.after {α : Type} (earlier : Option Failure) (result : Result α) : Result α :=
  { result with dropped := Failure.later earlier result.dropped }

/-- A list of values with one more in front. -/
def Result.cons {α : Type} (value : α) (result : Result (List α)) : Result (List α) :=
  match result with
  | ⟨.done values rest, dropped⟩ => ⟨.done (value :: values) rest, dropped⟩
  | ⟨.failed failure, dropped⟩ => ⟨.failed failure, dropped⟩
  | ⟨.aborted reason, dropped⟩ => ⟨.aborted reason, dropped⟩

/-- States at a place in a text. What is left of the text may be all there is to
    such a state. -/
class Place (σ : Type) where
  /-- What is left of the text. -/
  rest : σ → Rest
  /-- The state at another place, after failures of which one is to be reported. -/
  moveTo : σ → Rest → Option Failure → σ
  /-- Moving leads to the place. -/
  rest_moveTo : ∀ state after record, rest (moveTo state after record) = after
  /-- Staying where one is, after no failure, changes nothing. -/
  moveTo_rest : ∀ state, moveTo state (rest state) none = state
  /-- Of two moves the second place counts, and both records. -/
  moveTo_moveTo : ∀ state middle after record later,
    moveTo (moveTo state middle record) after later =
      moveTo state after (Failure.later record later)

instance : Place Rest where
  rest := id
  moveTo _ after _ := after
  rest_moveTo _ _ _ := rfl
  moveTo_rest _ := rfl
  moveTo_moveTo _ _ _ _ _ := rfl

/-- A parser of values of type `α` that sees a state of type `σ`. -/
def ParserOn (σ α : Type) := σ → Result α

/-- A parser of values of type `α` that sees what is left of the text. -/
abbrev Parser := ParserOn Rest

namespace Parser

variable {σ α β : Type}

/-- Matches nothing, with a given value. -/
protected def pure [Place σ] (value : α) : ParserOn σ α :=
  fun state => ⟨.done value (Place.rest state), none⟩

/-- Goes on with what the value of a parser calls for. -/
protected def bind [Place σ] (p : ParserOn σ α) (next : α → ParserOn σ β) : ParserOn σ β :=
  fun state =>
    match p state with
    | ⟨.done value rest, dropped⟩ =>
      (next value (Place.moveTo state rest dropped)).after dropped
    | ⟨.failed failure, dropped⟩ => ⟨.failed failure, dropped⟩
    | ⟨.aborted reason, dropped⟩ => ⟨.aborted reason, dropped⟩

instance [Place σ] : Monad (ParserOn σ) where
  pure := Parser.pure
  bind := Parser.bind

/-- What a step does in a state. -/
theorem bind_state [Place σ] (p : ParserOn σ α) (next : α → ParserOn σ β) (state : σ) :
    (p >>= next) state =
      match p state with
      | ⟨.done value rest, dropped⟩ =>
        (next value (Place.moveTo state rest dropped)).after dropped
      | ⟨.failed failure, dropped⟩ => ⟨.failed failure, dropped⟩
      | ⟨.aborted reason, dropped⟩ => ⟨.aborted reason, dropped⟩ := rfl

/-- What an empty step does in a state. -/
theorem pure_state [Place σ] (value : α) (state : σ) :
    (pure value : ParserOn σ α) state = ⟨.done value (Place.rest state), none⟩ := rfl

/-- What a step does to a text. -/
theorem bind_apply (p : Parser α) (next : α → Parser β) (rest : Rest) :
    (p >>= next) rest =
      match p rest with
      | ⟨.done value rest, dropped⟩ => (next value rest).after dropped
      | ⟨.failed failure, dropped⟩ => ⟨.failed failure, dropped⟩
      | ⟨.aborted reason, dropped⟩ => ⟨.aborted reason, dropped⟩ := rfl

/-- What an empty step does to a text. -/
theorem pure_apply (value : α) (rest : Rest) :
    (pure value : Parser α) rest = ⟨.done value rest, none⟩ := rfl

/-- Two steps match exactly if the first does and the second goes on from there.
    What they dropped plays no part in it. -/
theorem bind_outcome_eq_done_iff {p : Parser α} {next : α → Parser β} {rest after : Rest}
    {value : β} :
    ((p >>= next) rest).outcome = .done value after ↔
      ∃ a middle, (p rest).outcome = .done a middle ∧
        (next a middle).outcome = .done value after := by
  rw [bind_apply]
  rcases p rest with ⟨⟨a, middle⟩ | _ | _, dropped⟩
  · simp only [Result.after, Outcome.done.injEq]
    constructor
    · intro h
      exact ⟨a, middle, ⟨rfl, rfl⟩, h⟩
    · rintro ⟨_, _, ⟨rfl, rfl⟩, h⟩
      exact h
  · simp only [reduceCtorEq, false_and, exists_false]
  · simp only [reduceCtorEq, false_and, exists_false]

instance [Place σ] : LawfulMonad (ParserOn σ) := by
  refine LawfulMonad.mk' (ParserOn σ) ?_ ?_ ?_
  · intro α p
    funext state
    change (p >>= fun a => pure (id a)) state = p state
    rw [bind_state]
    rcases p state with ⟨_ | _ | _, dropped⟩
    · simp only [pure_state, id_eq, Result.after, Failure.later_none, Place.rest_moveTo]
    · rfl
    · rfl
  · intro α β value next
    funext state
    simp only [bind_state, pure_state, Result.after, Failure.none_later, Place.moveTo_rest]
  · intro α β γ p f g
    funext state
    simp only [bind_state]
    -- Only where two steps are done are there records to be joined.
    rcases p state with ⟨⟨value, rest⟩ | _ | _, dropped⟩
    · simp only
      rcases f value (Place.moveTo state rest dropped) with ⟨⟨value, rest⟩ | _ | _, dropped⟩
      · simp only [Result.after, Failure.later_assoc, Place.moveTo_moveTo]
      · rfl
      · rfl
    · rfl
    · rfl

/-- A parser that sees what is left of the text, in a state that knows more. -/
def lift [Place σ] (p : Parser α) : ParserOn σ α :=
  fun state => p (Place.rest state)

/-- Where there is no more to know, lifting changes nothing. -/
@[simp] theorem lift_self (p : Parser α) : (lift p : Parser α) = p := rfl

/-- An empty step is lifted to an empty step. -/
theorem lift_pure [Place σ] (value : α) : (lift (pure value) : ParserOn σ α) = pure value := rfl

/-- Two steps are lifted one by one. -/
theorem lift_bind [Place σ] (p : Parser α) (next : α → Parser β) :
    (lift (p >>= next) : ParserOn σ β) = lift p >>= fun value => lift (next value) := by
  funext state
  simp only [lift, bind_apply, bind_state]
  rcases p (Place.rest state) with ⟨⟨value, rest⟩ | _ | _, dropped⟩
  · simp only [Place.rest_moveTo]
  · rfl
  · rfl

/-- Does not match, at the present place. -/
def fail [Place σ] (label : String) : ParserOn σ α :=
  fun state => ⟨.failed ⟨(Place.rest state).left, [label]⟩, none⟩

/-- Gives up. -/
def abort (reason : Abort) : ParserOn σ α :=
  fun _ => ⟨.aborted reason, none⟩

/-- Matches nothing and builds a value, giving up if it is refused. -/
def build (value : Except Refusal α) : Parser α :=
  match value with
  | .ok value => pure value
  | .error refusal => abort (.refused refusal)

end Parser

end Reading

end Tptp
