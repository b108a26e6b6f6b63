import Tptp.Reading.Parser

/-!
# Combinators

Parsers made of parsers.

Alternatives are ordered: the first that matches is taken, and what comes later
cannot change that. An alternative that failed leaves no trace but its failure,
which is dropped; the failure of the last alternative is that of the choice.

There are two kinds of repetition. `many` goes on until its parser fails, and
drops that failure. `repeatWhile` looks ahead to see whether there is another
item, and once it has seen one it insists on it.

Recursion in the grammar is limited. A production that contains itself spends one
unit of an allowance at every level and gives up when there is none left, so it
is a function of the allowance, defined by structural recursion on it.

## Main definitions

* `Parser.labeled`: Names the production under way.
* `Parser.orElse`, `Parser.choice`, `Parser.optional`: Alternatives.
* `Parser.many`, `Parser.sepBy1`, `Parser.sepBy`: Repetition until a failure.
* `Parser.repeatWhile`: Repetition while another item is in sight.
* `Parser.ifOpens`: Alternatives that the next character decides.

## Theorems

* `Parser.orElse_of_done`: The first alternative that matches is taken.
-/

namespace Tptp

namespace Reading

namespace Parser

variable {σ α β : Type} [Place σ]

/-- Names the production under way to the failures that leave it. -/
def labeled (label : String) (p : ParserOn σ α) : ParserOn σ α := fun state =>
  match p state with
  | ⟨.done value rest, dropped⟩ => ⟨.done value rest, dropped⟩
  | ⟨.failed failure, dropped⟩ => ⟨.failed (failure.within label), dropped⟩
  | ⟨.aborted reason, dropped⟩ => ⟨.aborted reason, dropped⟩

/-- The first of two alternatives, or if it fails the second. -/
def orElse (p q : ParserOn σ α) : ParserOn σ α := fun state =>
  match p state with
  | ⟨.done value rest, dropped⟩ => ⟨.done value rest, dropped⟩
  | ⟨.failed failure, dropped⟩ =>
    -- The failure is dropped here, after those that were dropped on the way to it.
    let record := Failure.later dropped (some failure)
    (q (Place.moveTo state (Place.rest state) record)).after record
  | ⟨.aborted reason, dropped⟩ => ⟨.aborted reason, dropped⟩

instance : OrElse (ParserOn σ α) where
  orElse p q := orElse p (q ())

/-- The first alternative is taken if it matches. -/
theorem orElse_of_done {p q : ParserOn σ α} {state : σ} {after : Rest} {value : α}
    {dropped : Option Failure} (h : p state = ⟨.done value after, dropped⟩) :
    orElse p q state = ⟨.done value after, dropped⟩ := by
  simp only [orElse, h]

/-- The first of several alternatives that does not fail, or the last. -/
def choice : List (ParserOn σ α) → ParserOn σ α
  | [] => abort .undefined
  | [p] => p
  | p :: others => orElse p (choice others)

/-- What a parser matches, or nothing if it fails. -/
def optional (p : ParserOn σ α) : ParserOn σ (Option α) :=
  some <$> p <|> pure none

/-- What a parser matches, or nothing and a given value if it fails. -/
def withDefault (value : α) (p : ParserOn σ α) : ParserOn σ α :=
  p <|> pure value

/-- As many items as match, until the parser fails. The loop also ends with an
    item that took no character, which could be repeated for ever. -/
def many (p : ParserOn σ α) (state : σ) : Result (List α) :=
  match p state with
  | ⟨.done value after, dropped⟩ =>
    if _progress : after.size < (Place.rest state).size then
      ((many p (Place.moveTo state after dropped)).after dropped).cons value
    else ⟨.done [value] after, dropped⟩
  | ⟨.failed failure, dropped⟩ =>
    ⟨.done [] (Place.rest state), Failure.later dropped (some failure)⟩
  | ⟨.aborted reason, dropped⟩ => ⟨.aborted reason, dropped⟩
termination_by (Place.rest state).size
decreasing_by
  rw [Place.rest_moveTo]
  exact _progress

/-- Items as long as another one is in sight. The loop also ends with an item that
    took no character, which could be repeated for ever. -/
def repeatWhile (inSight : Rest → Bool) (p : ParserOn σ α) (state : σ) : Result (List α) :=
  if inSight (Place.rest state) then
    match p state with
    | ⟨.done value after, dropped⟩ =>
      if _progress : after.size < (Place.rest state).size then
        ((repeatWhile inSight p (Place.moveTo state after dropped)).after dropped).cons value
      else ⟨.done [value] after, dropped⟩
    | ⟨.failed failure, dropped⟩ => ⟨.failed failure, dropped⟩
    | ⟨.aborted reason, dropped⟩ => ⟨.aborted reason, dropped⟩
  else ⟨.done [] (Place.rest state), none⟩
termination_by (Place.rest state).size
decreasing_by
  rw [Place.rest_moveTo]
  exact _progress

/-- One item, and more of them behind separators. -/
def sepBy1 (item : ParserOn σ α) (separator : ParserOn σ β) : ParserOn σ (List α) := do
  let first ← item
  let others ← many (separator *> item)
  return first :: others

/-- Any number of items between separators. -/
def sepBy (item : ParserOn σ α) (separator : ParserOn σ β) : ParserOn σ (List α) :=
  withDefault [] (sepBy1 item separator)

/-- One of two parsers, as the next character decides. -/
def ifOpens (c : Char) (p q : ParserOn σ α) : ParserOn σ α := fun state =>
  if (Place.rest state).opensWith c then p state else q state

end Parser

end Reading

end Tptp
