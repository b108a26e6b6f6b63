import Tptp.Reading.Layout
import Tptp.Text.Location

/-!
# Reading a Text

Parsers at work on a text, and the errors they end in.

A session reads one text step by step. It knows the text, what is left of it, and
of all failures so far the one to be reported. A step that does not match may be
taken back, but its failure stays on record.

Steps may see the session itself. `Session.seek` goes to any position of the text
or behind its end, and `Session.look` tells what the session knows; both are
parsers, so they can stand wherever a parser can.

Reading a whole text is a session of one step, which has to reach the end. If it
does not, the failure on record is the error, and that is not always the failure
which ended the step: an alternative that got further may have been dropped.

## Main definitions

* `Mismatch`: An error, with all that is known about its place.
* `Session`: A text that is being read.
* `Session.error`: The error to be reported.
* `Session.seek`, `Session.look`: Steps that see the session.
* `Session.step`: One step of reading.
* `ReadError`: What can go wrong with a text.
* `readAll`: Reads a whole text with a parser that sees the session.
* `read`, `readFromStart`: Read a whole text.

## Theorems

* `positionOf_ofPosition`, `Session.position_seek`: Seeking a position leads there.
* `Session.step_lift`: What a parser that sees no session makes of one.
* `Session.step_of_done`, `Session.step_of_failed`: What becomes of the session.
-/

namespace Tptp

namespace Reading

/-- The number of characters before a place of a text, which is given as a number
    that falls as reading goes on. -/
def positionOf (text : List Char) (left : Int) : Nat :=
  (text.length - left).toNat

/-- A place is at its position. -/
theorem positionOf_ofPosition (text : List Char) (position : Nat) :
    positionOf text (Rest.ofPosition text position).left = position := by
  simp only [positionOf, Rest.left, Rest.ofPosition]
  omega

/-- A text does not match the grammar. -/
structure Mismatch where
  /-- The text. -/
  text : String
  /-- The place of the error, as the number of characters before it. -/
  position : Nat
  /-- The line and the column of the place. -/
  location : Location
  /-- The productions that were under way there, innermost first. -/
  labels : List String
  /-- The text at the place. -/
  context : String

namespace Mismatch

/-- An error at a place of a text. -/
def ofPosition (text : List Char) (position : Nat) (labels : List String) : Mismatch :=
  ⟨String.ofList text, position, .ofPosition text position, labels,
    String.ofList (contextAt text position)⟩

/-- The error of a failure in a text. -/
def ofFailure (text : List Char) (failure : Failure) : Mismatch :=
  ofPosition text (positionOf text failure.left) failure.labels

/-- What stood at the place of the error in the grammar. -/
def expected (error : Mismatch) : String :=
  error.labels.head?.getD ""

/-- An error in words. -/
def message (error : Mismatch) : String :=
  "Syntax error, expected " ++ error.labels.head?.getD "end of input" ++
    " (at " ++ Numeral.intText error.location.line ++ ":" ++
    Numeral.intText error.location.column ++ "): " ++ error.context

end Mismatch

/-- A text that is being read. -/
structure Session where
  /-- The whole text. -/
  text : List Char
  /-- What is left of it. -/
  rest : Rest
  /-- The failure to be reported of all so far. -/
  furthest : Option Failure

namespace Session

/-- A text of which nothing has been read. -/
def start (text : List Char) : Session :=
  ⟨text, .ofList text, none⟩

instance : Place Session where
  rest := Session.rest
  moveTo session rest record :=
    { session with rest, furthest := Failure.later session.furthest record }
  rest_moveTo _ _ _ := rfl
  moveTo_rest _ := rfl
  moveTo_moveTo _ _ _ _ _ := by simp only [Failure.later_assoc]

/-- How many characters stand before the present place. -/
def position (session : Session) : Nat :=
  positionOf session.text session.rest.left

/-- The error to be reported: the failure on record, or that there is input left
    where nothing has failed. -/
def error (session : Session) : Mismatch :=
  .ofFailure session.text (session.furthest.getD ⟨session.rest.left, ["input"]⟩)

/-- Goes to a position. -/
def seek (position : Nat) : ParserOn Session Unit := fun session =>
  ⟨.done () (Rest.ofPosition session.text position), none⟩

variable {α : Type}

/-- What the session knows. -/
def look (f : Session → α) : ParserOn Session α := fun session =>
  ⟨.done (f session) session.rest, none⟩

/-- One step of reading. If it does not match, or gives up, the place is the one
    before the step. -/
def step (p : ParserOn Session α) (session : Session) : Outcome α × Session :=
  match p session with
  | ⟨.done value rest, dropped⟩ => (.done value rest, Place.moveTo session rest dropped)
  -- The failure that ends the step is the last one of it.
  | ⟨.failed failure, dropped⟩ =>
    (.failed failure,
      Place.moveTo session session.rest (Failure.later dropped (some failure)))
  | ⟨.aborted reason, dropped⟩ =>
    (.aborted reason, Place.moveTo session session.rest dropped)

/-- A parser that sees no session comes to the same in all that have as much left. -/
theorem step_lift (p : Parser α) (session : Session) :
    (step (Parser.lift p) session).1 = (p session.rest).outcome := by
  have h : Parser.lift p session = p session.rest := rfl
  rw [step, h]
  rcases p session.rest with ⟨_ | _ | _, dropped⟩ <;> rfl

/-- A step that matches at once leads to the place behind it. -/
theorem step_of_done {p : Parser α} {session : Session} {value : α} {after : Rest}
    (h : p session.rest = ⟨.done value after, none⟩) :
    step (Parser.lift p) session = (.done value after, { session with rest := after }) := by
  have happly : Parser.lift p session = ⟨.done value after, none⟩ := h
  rw [step, happly]
  rfl

/-- A step that fails at once leaves the place as it is, and its failure on record. -/
theorem step_of_failed {p : Parser α} {session : Session} {failure : Failure}
    (h : p session.rest = ⟨.failed failure, none⟩) :
    step (Parser.lift p) session =
      (.failed failure,
        { session with furthest := Failure.later session.furthest (some failure) }) := by
  have happly : Parser.lift p session = ⟨.failed failure, none⟩ := h
  rw [step, happly]
  rfl

/-- Seeking a position leads there. -/
theorem position_seek (session : Session) (position : Nat) :
    (step (seek position) session).2.position = position :=
  positionOf_ofPosition session.text position

end Session

/-- What can go wrong with a text. -/
inductive ReadError where
  /-- It does not match the grammar. -/
  | mismatch (error : Mismatch)
  /-- Reading was given up. -/
  | aborted (reason : Abort)

variable {α : Type}

/-- Reads a whole text with a parser that sees the session. -/
def readAll (p : ParserOn Session α) (text : String) : Except ReadError α :=
  match (Session.start text.toList).step (p <* Parser.lift Parser.endOfInput) with
  | (.done value _, _) => .ok value
  | (.failed _, session) => .error (.mismatch session.error)
  | (.aborted reason, _) => .error (.aborted reason)

/-- Reads a whole text, and lets the parser see the layout in front of it. -/
def readFromStart (p : Parser α) (text : String) : Except ReadError α :=
  readAll (Parser.lift p) text

/-- Reads a whole text, layout in front of it included. -/
def read (p : Parser α) (text : String) : Except ReadError α :=
  readFromStart (Parser.skipLayout *> p) text

end Reading

end Tptp
