import Tptp.Szs.Summary
import Tptp.Text.CharClass

/-!
# Announcements in Comment Lines

How a comment line of a transcript announces the status of a run or the form of
its data.

The words of an announcement may be spaced out and need no space between them. A
code is a run of letters, as long as it goes, and it has to be the name of a
result code in full; whatever comes after it on the line is a remark to the
reader. A line that is not of this form announces nothing.

## Main definitions

* `Szs.afterWord?`: What stands behind a word at the start of a line.
* `Szs.code?`: The code at the start of a line.
* `Szs.Line`, `Szs.Line.scan?`: What a line says, before its code is looked up.
* `Szs.body`: A comment line without what may stand in front of it.
* `Szs.Summary.ofCommentBy?`: The announcement of a comment line, for any way to
  tell what lines say.
* `Szs.Summary.ofComment?`: The announcement of a comment line.
-/

namespace Tptp

namespace Szs

/-- The blanks that may stand between the words of an announcement. -/
def isSpacing (c : Char) : Bool :=
  c == ' ' || c == '\t'

/-- What stands behind a word, if the line starts with it after spacing. -/
def afterWord? (word : String) (line : List Char) : Option (List Char) :=
  let line := line.dropWhile isSpacing
  if word.toList.isPrefixOf line then some (line.drop word.toList.length) else none

/-- The code with which the line starts after spacing, unless there is none or
    the remark behind it breaks the line. -/
def code? (line : List Char) : Option String :=
  let line := line.dropWhile isSpacing
  let code := line.takeWhile Char.isAlpha
  if code.isEmpty || (line.drop code.length).contains '\n' then none
  else some (String.ofList code)

/-- The status with a name in the ontology. -/
def statusNamed? (name : String) : Option Status :=
  match Ontology.ofOntologyName? name with
  -- No name is shared, so the order of the two vocabularies is immaterial.
  | some code => some (.noSuccess code)
  | none => (Ontology.ofOntologyName? name).map .success

/-- What a line says, with the code as it is written. -/
inductive Line where
  /-- The status of the run has this code. -/
  | status (code : String)
  /-- Data of the form with this code follow. -/
  | dataform (code : String)
deriving DecidableEq

/-- What a line says, if it is of the form of an announcement. -/
def Line.scan? (line : List Char) : Option Line := do
  let line ← afterWord? "SZS" line
  match afterWord? "status" line with
  | some line => return .status (← code? line)
  | none => do
    let line ← afterWord? "output" line
    let line ← afterWord? "start" line
    return .dataform (← code? line)

/-- What a line announces, unless its code is not in the ontology. -/
def Line.summary? : Line → Option Summary
  | .status code => do return ⟨some (← statusNamed? code), none⟩
  | .dataform code => do return ⟨none, some (← Ontology.ofOntologyName? code)⟩

/-- What a comment line says, given without the percent sign it starts with; a second
    one is passed over. -/
def body (comment : List Char) : List Char :=
  let line := comment.dropWhile Text.isBlank
  if line.head? = some '%' then line.tail else line

/-- The announcement of a comment line. What the line says is for `scan` to tell. -/
def Summary.ofCommentBy? (scan : List Char → Option Line) (comment : List Char) :
    Option Summary := do
  (← scan (body comment)).summary?

/-- The announcement of a comment line. -/
def Summary.ofComment? (comment : List Char) : Option Summary :=
  ofCommentBy? Line.scan? comment

end Szs

end Tptp
