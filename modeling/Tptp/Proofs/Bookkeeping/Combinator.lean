import Tptp.Grammar.Formula
import Tptp.Proofs.Bookkeeping.Assembly
import Tptp.Reading.Bracket

/-!
# Assembled Combinators

All combinators are put together from the few that assemblies have.

The combinators work on any state that is at a place of a text, and here it is a session.
A parser that sees no session is one of its own, and it is assembled if it can be lifted to
sessions as an assembly. Lifting commutes with putting together. For a repetition this
needs an induction on what is left of the text, since the loop is not a step of its own.

## Main definitions

* `IsAssembled`: A parser for which there is an assembly.

## Theorems

* `IsAssembled.bind`, `IsAssembled.orElse`, `IsAssembled.choice`: Steps and alternatives.
* `IsAssembled.sepBy`, `IsAssembled.arguments`: Repetition.
* `IsAssembled.parens`, `IsAssembled.optionalParens`: Brackets.
* `Parser.lift_many`, `Parser.lift_repeatWhile`: Repetitions are lifted to repetitions.
-/

namespace Tptp

namespace Reading

variable {α β : Type}

/-- There is an assembly for the parser. -/
def IsAssembled (p : ParserOn Session α) : Prop :=
  ∃ a : Assembly α, a.parser = p

namespace IsAssembled

variable {p q : ParserOn Session α}

theorem pure (value : α) : IsAssembled (pure value) :=
  ⟨.pure value, rfl⟩

theorem primitive {p : Parser α} (hp : IsPrimitive p) : IsAssembled (Parser.lift p) :=
  ⟨.primitive p hp, rfl⟩

theorem bind {next : α → ParserOn Session β} (hp : IsAssembled p)
    (hnext : ∀ a, IsAssembled (next a)) : IsAssembled (p >>= next) := by
  rcases hp with ⟨first, rfl⟩
  choose second hsecond using hnext
  exact ⟨.bind first second, congrArg _ (funext hsecond)⟩

theorem map (f : α → β) (hp : IsAssembled p) : IsAssembled (f <$> p) :=
  hp.bind fun _ => .pure _

theorem labeled (label : String) (hp : IsAssembled p) : IsAssembled (Parser.labeled label p) := by
  rcases hp with ⟨inner, rfl⟩
  exact ⟨.labeled label inner, rfl⟩

theorem orElse (hp : IsAssembled p) (hq : IsAssembled q) : IsAssembled (p <|> q) := by
  rcases hp with ⟨first, rfl⟩
  rcases hq with ⟨second, rfl⟩
  exact ⟨.orElse first second, rfl⟩

/-- The next character decides between parsers. -/
theorem inspect {p : Option Char → ParserOn Session α} (hp : ∀ c, IsAssembled (p c)) :
    IsAssembled fun session => p session.rest.chars.head? session := by
  choose chosen hchosen using hp
  refine ⟨.inspect chosen, funext fun session => ?_⟩
  exact congrFun (hchosen session.rest.chars.head?) session

theorem many (hp : IsAssembled p) : IsAssembled (Parser.many p) := by
  rcases hp with ⟨item, rfl⟩
  exact ⟨.many item, rfl⟩

theorem repeatWhile (inSight : Option Char → Bool) (hp : IsAssembled p) :
    IsAssembled (Parser.repeatWhile (fun rest => inSight rest.chars.head?) p) := by
  rcases hp with ⟨item, rfl⟩
  exact ⟨.repeatWhile inSight item, rfl⟩

/-- The failure of the last alternative is not dropped. -/
theorem choice {others : List (ParserOn Session α)} (h : ∀ p ∈ others, IsAssembled p) :
    IsAssembled (Parser.choice others) := by
  induction others with
  | nil => exact primitive (.abort _)
  | cons p others ih =>
      have hp := h p List.mem_cons_self
      have hothers := ih fun q hq => h q (List.mem_cons_of_mem p hq)
      cases others with
      | nil => exact hp
      | cons => exact hp.orElse hothers

theorem optional (hp : IsAssembled p) : IsAssembled (Parser.optional p) :=
  (hp.map _).orElse (.pure _)

theorem withDefault (value : α) (hp : IsAssembled p) : IsAssembled (Parser.withDefault value p) :=
  hp.orElse (.pure value)

theorem sepBy1 {separator : ParserOn Session β} (hp : IsAssembled p)
    (hseparator : IsAssembled separator) : IsAssembled (Parser.sepBy1 p separator) :=
  hp.bind fun _ => (hseparator.bind fun _ => hp).many.bind fun _ => .pure _

theorem sepBy {separator : ParserOn Session β} (hp : IsAssembled p)
    (hseparator : IsAssembled separator) : IsAssembled (Parser.sepBy p separator) :=
  (hp.sepBy1 hseparator).withDefault []

theorem ifOpens (c : Char) (hp : IsAssembled p) (hq : IsAssembled q) :
    IsAssembled (Parser.ifOpens c p q) := by
  have heq : Parser.ifOpens c p q = fun session : Session =>
      (if session.rest.chars.head? = some c then p else q) session := by
    funext session
    change (if session.rest.opensWith c then p session else q session) = _
    simp only [Rest.opensWith, decide_eq_true_eq]
    split <;> rfl
  rw [heq]
  refine inspect (p := fun head => if head = some c then p else q) fun head => ?_
  split
  · exact hp
  · exact hq

theorem lexeme (hp : IsAssembled p) : IsAssembled (Parser.lexeme p) :=
  hp.bind fun _ => (primitive .skipLayout).bind fun _ => .pure _

theorem signed (negative? : α → Option α) (hp : IsAssembled p) :
    IsAssembled (Parser.signed negative? p) := by
  have hsign : IsAssembled (Parser.lift (Parser.take 1)) := primitive (.take 1)
  refine ifOpens _ (hsign.bind fun _ => hp.bind fun value => ?_)
    (ifOpens _ (hsign.bind fun _ => hp) hp)
  split
  · exact .pure _
  · exact primitive (.abort _)

section

variable {p : Parser α}

theorem lift_bind {next : α → Parser β} (hp : IsAssembled (Parser.lift p))
    (hnext : ∀ a, IsAssembled (Parser.lift (next a))) : IsAssembled (Parser.lift (p >>= next)) := by
  rw [Parser.lift_bind]
  exact hp.bind hnext

theorem lift_lexeme (hp : IsAssembled (Parser.lift p)) :
    IsAssembled (Parser.lift (Parser.lexeme p)) :=
  hp.lift_bind fun _ => (primitive .skipLayout).lift_bind fun _ => .pure _

theorem operator (sign : String) : IsAssembled (Parser.lift (Parser.operator sign)) :=
  (primitive (.sign _ sign)).lift_lexeme

theorem token (word : String) : IsAssembled (Parser.lift (Parser.token word)) :=
  (primitive (.wholeWord _ word)).lift_lexeme

end

theorem comma (hp : IsAssembled p) : IsAssembled (Parser.comma p) :=
  (operator ",").bind fun _ => hp

theorem maybeComma (hp : IsAssembled p) : IsAssembled (Parser.maybeComma p) :=
  hp.comma.optional

theorem parens (hp : IsAssembled p) : IsAssembled (Parser.parens p) :=
  labeled _ ((operator "(").bind fun _ => hp.bind fun _ => (operator ")").bind fun _ => .pure _)

theorem orParens (hp : IsAssembled p) (hq : IsAssembled q) : IsAssembled (Parser.orParens p q) :=
  ifOpens _ (hp.orElse hq.parens) hp

theorem optionalParens {p : Nat → ParserOn Session α} (hp : ∀ n, IsAssembled (p n))
    (allowance : Nat) : IsAssembled (Parser.optionalParens p allowance) := by
  induction allowance with
  | zero => exact primitive (.abort .tooDeep)
  | succ allowance ih => exact (hp allowance).orParens ih

theorem brackets (hp : IsAssembled p) : IsAssembled (Parser.brackets p) :=
  labeled _ ((operator "[").bind fun _ => hp.bind fun _ => (operator "]").bind fun _ => .pure _)

theorem bracketList (hp : IsAssembled p) : IsAssembled (Parser.bracketList p) :=
  labeled _ (hp.sepBy (operator ",")).brackets

theorem bracketList1 (hp : IsAssembled p) : IsAssembled (Parser.bracketList1 p) :=
  labeled _ (hp.sepBy1 (operator ",")).brackets

theorem arguments (hp : IsAssembled p) : IsAssembled (Parser.arguments p) := by
  have hothers := hp.comma.repeatWhile fun head => decide (head = some ',')
  refine ifOpens _ ((operator "(").bind fun _ => hp.bind fun _ => hothers.bind fun _ => ?_)
    (.pure _)
  exact (operator ")").bind fun _ => .pure _

theorem tagged (tag : String) (hp : IsAssembled p) : IsAssembled (Parser.tagged tag p) :=
  (token tag).bind fun _ => hp.parens

theorem mapping (hp : IsAssembled p) : IsAssembled (Grammar.mapping p) := by
  have hsorts : IsAssembled (Grammar.mappingArguments p) :=
    ((hp.map _).orElse (hp.sepBy1 (operator "*")).parens).bind fun _ =>
      (operator ">").bind fun _ => .pure _
  exact (hsorts.withDefault _).bind fun _ => hp.bind fun _ => .pure _

theorem sortedNote {sort : Nat → ParserOn Session α} (hsort : ∀ n, IsAssembled (sort n))
    (allowance : Nat) : IsAssembled (Grammar.sortedNote sort allowance) := by
  have hgiven : IsAssembled (Grammar.givenSort sort allowance) :=
    (operator ":").bind fun _ => .optionalParens hsort allowance
  exact labeled _ (hgiven.optional.map _)

end IsAssembled

namespace Parser

variable {σ : Type} [Place σ]

/-- A repetition is lifted to a repetition. -/
theorem lift_many (p : Parser α) : (lift (many p) : ParserOn σ (List α)) = many (lift p) := by
  funext state
  change many p (Place.rest state) = many (lift p) state
  -- The loops take the same items, and the states of one are at the places of the other.
  induction hsize : (Place.rest state).size using Nat.strongRecOn generalizing state with
  | _ n ih =>
      rw [many, many, lift]
      rcases p (Place.rest state) with ⟨⟨value, after⟩ | _ | _, dropped⟩
      · by_cases hlt : after.size < (Place.rest state).size
        · have hnext := ih after.size (hsize ▸ hlt) (Place.moveTo state after dropped)
            (by rw [Place.rest_moveTo])
          rw [Place.rest_moveTo] at hnext
          simp only [dif_pos hlt, ← hnext]
          exact dif_pos hlt
        · simp only [dif_neg hlt]
          exact dif_neg hlt
      · rfl
      · rfl

/-- A repetition with an item in sight is lifted to one. -/
theorem lift_repeatWhile (inSight : Rest → Bool) (p : Parser α) :
    (lift (repeatWhile inSight p) : ParserOn σ (List α)) = repeatWhile inSight (lift p) := by
  funext state
  change repeatWhile inSight p (Place.rest state) = repeatWhile inSight (lift p) state
  induction hsize : (Place.rest state).size using Nat.strongRecOn generalizing state with
  | _ n ih =>
      rw [repeatWhile, repeatWhile, lift]
      change (if inSight (Place.rest state) then _ else _) = _
      split
      · rcases p (Place.rest state) with ⟨⟨value, after⟩ | _ | _, dropped⟩
        · by_cases hlt : after.size < (Place.rest state).size
          · have hnext := ih after.size (hsize ▸ hlt) (Place.moveTo state after dropped)
              (by rw [Place.rest_moveTo])
            rw [Place.rest_moveTo] at hnext
            simp only [dif_pos hlt, ← hnext]
            exact dif_pos hlt
          · simp only [dif_neg hlt]
            exact dif_neg hlt
        · rfl
        · rfl
      · rfl

end Parser

end Reading

end Tptp
