import Tptp.Refusal
import Tptp.Vocabulary.Basic

/-!
# Names

What symbols, variables and reserved words are called.

A symbol is named by an atom, which the user chooses freely, or by a reserved
word. A reserved word may be standard, a member of the vocabulary that belongs
to its place, or extended, a word that some prover understands and the language
leaves open. Reading a word decides between the two, so an extended word never
shadows a standard one.

The same word can be standard in one place and extended in another: `$int` is a
standard sort and an extended predicate. `Reserved` and `Name` therefore carry
the vocabulary of their place in their type.

## Main definitions

* `Atom`, `Var`, `DistinctObject`: User-chosen names, and their checked
  constructors.
* `Reserved`: Standard and extended words.
* `Reserved.ofWord`: The reading of a word in a place.
* `Name`: A reserved word or an atom.

## Theorems

* `Reserved.ofWord_canonical`: The spelling of a member is read as the member.
* `Reserved.ofWord_eq_extended_iff`: A word is extended exactly if no member is
  spelled so.
* `Reserved.ofWord_eq_standard_iff`: A word is standard exactly if it is looked up.
-/

namespace Tptp

namespace Text

/-- A word that starts with a lower case letter. -/
def isLowerWord : List Char → Bool
  | [] => false
  | c :: rest => c.isLower && rest.all isWordChar

/-- A word that starts with an upper case letter. -/
def isUpperWord : List Char → Bool
  | [] => false
  | c :: rest => c.isUpper && rest.all isWordChar

end Text

/-- A symbol that the user chose. -/
structure Atom where
  /-- The name, without the quotes it may be written in. -/
  text : String
deriving DecidableEq

namespace Atom

/-- A text can name an atom: it is printable and not empty. -/
def isValid (text : String) : Bool :=
  !text.toList.isEmpty && text.toList.all Text.isPrintable

/-- The atom of a text. -/
def ofText (text : String) : Except Refusal Atom :=
  if isValid text then .ok ⟨text⟩ else .error (.atom text)

/-- The atom named by two names put together. -/
def append (a b : Atom) : Except Refusal Atom :=
  ofText (a.text ++ b.text)

end Atom

/-- A logical variable. -/
structure Var where
  /-- The name, a word that starts with an upper case letter. -/
  text : String
deriving DecidableEq

namespace Var

/-- A text can name a variable. -/
def isValid (text : String) : Bool :=
  Text.isUpperWord text.toList

/-- The variable of a text. -/
def ofText (text : String) : Except Refusal Var :=
  if isValid text then .ok ⟨text⟩ else .error (.variableName text)

end Var

/-- A symbol that denotes an object different from that of any other such
    symbol. -/
structure DistinctObject where
  /-- The name, without the quotes it is written in. -/
  text : String
deriving DecidableEq

namespace DistinctObject

/-- A text can name a distinct object: it is printable. -/
def isValid (text : String) : Bool :=
  text.toList.all Text.isPrintable

/-- The distinct object of a text. -/
def ofText (text : String) : Except Refusal DistinctObject :=
  if isValid text then .ok ⟨text⟩ else .error (.distinctObject text)

/-- The distinct object named by two names put together. -/
def append (a b : DistinctObject) : Except Refusal DistinctObject :=
  ofText (a.text ++ b.text)

end DistinctObject

/-- A reserved word in a place that the vocabulary `V` belongs to. -/
inductive Reserved (V : Type) where
  /-- A member of the vocabulary. -/
  | standard (value : V)
  /-- A word that the vocabulary does not have. -/
  | extended (text : String)
deriving DecidableEq

namespace Reserved

variable {V : Type} [Vocabulary V]

/-- A text can stand as a reserved word. -/
def isValid (text : String) : Bool :=
  Text.isLowerWord text.toList

/-- The reading of a word: standard if the vocabulary has it. -/
def ofWord (text : String) : Reserved V :=
  match Vocabulary.ofCanonical? text with
  | some value => standard value
  | none => extended text

/-- A reserved word as it is written. -/
def text : Reserved V → String
  | standard value => Vocabulary.canonical value
  | extended text => text

/-- The spelling of a member is read as the member. -/
theorem ofWord_canonical (v : V) : ofWord (Vocabulary.canonical v) = standard v := by
  simp only [ofWord, Vocabulary.ofCanonical?_canonical]

/-- A word is extended exactly if no member is spelled so. -/
theorem ofWord_eq_extended_iff (word : String) :
    ofWord (V := V) word = extended word ↔ ∀ v : V, Vocabulary.canonical v ≠ word := by
  simp only [ofWord]
  constructor
  · intro h v hv
    rw [Vocabulary.ofCanonical?_eq_some_iff.mpr hv] at h
    exact absurd h (by simp only [reduceCtorEq, not_false_eq_true])
  · intro h
    cases hf : Vocabulary.ofCanonical? (V := V) word with
    | none => rfl
    | some v => exact absurd (Vocabulary.ofCanonical?_eq_some_iff.mp hf) (h v)

/-- A word is standard exactly if looking it up finds the member. -/
theorem ofWord_eq_standard_iff {word : String} {v : V} :
    ofWord word = standard v ↔ Vocabulary.ofCanonical? word = some v := by
  rw [ofWord]
  cases Vocabulary.ofCanonical? (V := V) word with
  | none => simp only [reduceCtorEq]
  | some w => simp only [standard.injEq, Option.some.injEq]

end Reserved

/-- The name of a symbol in a place that the vocabulary `V` belongs to. -/
inductive Name (V : Type) where
  /-- A reserved word, written behind a dollar sign. -/
  | reserved (word : Reserved V)
  /-- A symbol of the user. -/
  | user (atom : Atom)
deriving DecidableEq

namespace Name

variable {V : Type}

/-- The name is a reserved word. -/
def isReserved : Name V → Bool
  | reserved _ => true
  | user _ => false

/-- The member of the vocabulary that the name stands for. -/
def standard? : Name V → Option V
  | reserved (.standard value) => some value
  | _ => none

end Name

end Tptp
