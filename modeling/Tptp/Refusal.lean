import Tptp.Numeral
import Tptp.Text.Displayed

/-!
# Refusals

Why a value cannot be built.

Some types of the library admit more than the language does: an atom carries a
text, but not every text is one of an atom. Such a type has a checked way of
building it, which hands out the value or the reason why there is none. The
reasons of all types are collected here, with what is said about each of them.
Writing an integer may be refused too, for its length, and then it is not written
in a message either.

## Main definitions

* `Refusal`: The reasons.
* `Refusal.message`: What is said about a reason.
-/

namespace Tptp

/-- A reason why a value cannot be built. -/
inductive Refusal where
  /-- An atom needs printable characters, and at least one of them. -/
  | atom (text : String)
  /-- A variable needs a word that starts with an upper case letter. -/
  | variableName (text : String)
  /-- A distinct object needs printable characters. -/
  | distinctObject (text : String)
  /-- A rational number needs a positive denominator. -/
  | denominator (value : Int)
  /-- A clause needs a literal. -/
  | emptyClause
  /-- A quantifier needs a variable to bind. -/
  | nothingBound
  /-- A list of assumptions needs a unit. -/
  | noAssumption
  /-- A selection of units needs a unit. -/
  | emptySelection
  /-- A sort constructor takes no negative number of arguments. -/
  | arity (value : Int)
  /-- An integer is too long to be written. -/
  | longInteger
deriving DecidableEq

/-- What is said about an integer that is too long to be written. -/
def Refusal.tooLong : String :=
  "Exceeds the limit (" ++ Numeral.intText Numeral.digitLimit ++
    " digits) for integer string conversion; " ++
    "use sys.set_int_max_str_digits() to increase the limit"

/-- What is said about an unfit integer. If that cannot be written, its length is
    what is wrong with it. -/
def Refusal.unfit (complaint : String) (value : Int) : String :=
  ((Numeral.intText? value).map (complaint ++ ·)).getD tooLong

/-- What is said about a reason. -/
def Refusal.message : Refusal → String
  | .atom text => "Invalid atom: " ++ Text.displayed text
  | .variableName text => "Invalid variable: " ++ Text.displayed text
  | .distinctObject text => "Invalid distinct object: " ++ Text.displayed text
  | .denominator value => unfit "Expected positive denominator, got " value
  | .emptyClause => "Clause must contain at least one literal"
  | .nothingBound => "Quantified formula must bind at least one variable"
  | .noAssumption => "Assumptions must name at least one unit"
  | .emptySelection => "Include selection must name at least one unit"
  | .arity value => unfit "Expected non-negative arity, got " value
  | .longInteger => tooLong

end Tptp
