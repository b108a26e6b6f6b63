import Tptp.Decimal
import Tptp.Name
import Tptp.Vocabulary.Logic

/-!
# Terms, Literals and Clauses

What formulas are made of.

Numbers are kept as written: a rational number is not reduced, and a real number
remembers its digits. A number written with a fraction or an exponent that
cancel out is an integer all the same.

A clause holds at least one literal. The empty disjunction is false, and
`Clause.ofList` writes it so.

## Main definitions

* `Number`: Integers, rational and real numbers.
* `Term`: Applications, variables, numbers and distinct objects.
* `Literal`: Applications of predicates and equations.
* `Clause`: Disjunctions of literals with a sign.
* `Clause.ofLiterals`, `Clause.ofList`: The clause of a list, checked and with
  the empty list read as falsehood.
* `Clause.append`, `Clause.appendAll`: Disjunctions of clauses.

## Theorems

* `Clause.appendAll_eq_foldl`: Adding clauses at once is adding one after the
  other.
-/

namespace Tptp

/-- A number. -/
inductive Number where
  /-- An integer. -/
  | integer (value : Int)
  /-- A fraction as it was written; the denominator is positive. -/
  | rational (numerator : Int) (denominator : Nat)
  /-- A number with a fraction or an exponent. -/
  | real (value : Decimal)
deriving DecidableEq

namespace Number

/-- The fraction of two integers. -/
def ofFraction (numerator denominator : Int) : Except Refusal Number :=
  if 0 < denominator then .ok (.rational numerator denominator.toNat)
  else .error (.denominator denominator)

/-- The number that a decimal denotes: an integer if the last digit stands for
    ones, and a real number otherwise. -/
def ofDecimal (value : Decimal) : Number :=
  if value.exponent = 0 then .integer value.signedCoefficient else .real value

/-- An integer as it is printed. -/
def integerText (value : Int) : Except Refusal String :=
  ((Numeral.intText? value).map .ok).getD (.error .longInteger)

/-- A number as it is printed. -/
def text : Number → Except Refusal String
  | .integer value => integerText value
  | .rational numerator denominator => do
    let above ← integerText numerator
    let below ← integerText denominator
    return above ++ "/" ++ below
  | .real value => .ok value.text

end Number

/-- The name of a function symbol. -/
abbrev FunctionName := Name DefinedFunction

/-- The name of a predicate symbol. -/
abbrev PredicateName := Name DefinedPredicate

/-- A term. -/
inductive Term where
  /-- A function symbol with its arguments; a constant has none. -/
  | function (name : FunctionName) (arguments : List Term)
  /-- A variable. -/
  | var (var : Var)
  /-- A number. -/
  | number (number : Number)
  /-- A distinct object. -/
  | distinct (object : DistinctObject)

/-- A statement without logical structure. -/
inductive Literal where
  /-- A predicate symbol with its arguments; a proposition has none. -/
  | predicate (name : PredicateName) (arguments : List Term)
  /-- An equation, or with the negative sign a disequation. -/
  | equality (left : Term) (sign : Sign) (right : Term)

/-- The statement that is always false. -/
def Literal.falsum : Literal :=
  .predicate (.reserved (.standard .falsum)) []

/-- A statement or its denial. -/
structure SignedLiteral where
  /-- Whether the statement is asserted or denied. -/
  sign : Sign
  /-- The statement. -/
  literal : Literal

/-- A disjunction of literals. -/
structure Clause where
  /-- The literals, of which there is at least one. -/
  literals : List SignedLiteral

namespace Clause

/-- The clause of a list of literals, which must not be empty. -/
def ofLiterals (literals : List SignedLiteral) : Except Refusal Clause :=
  if literals.isEmpty then .error .emptyClause else .ok ⟨literals⟩

/-- The clause of a single literal. -/
def unit (literal : SignedLiteral) : Clause :=
  ⟨[literal]⟩

/-- The clause of a list of literals; without any it is the false one. -/
def ofList (literals : List SignedLiteral) : Clause :=
  if literals.isEmpty then unit ⟨.positive, .falsum⟩ else ⟨literals⟩

/-- The disjunction of two clauses. -/
def append (a b : Clause) : Clause :=
  ⟨a.literals ++ b.literals⟩

/-- The disjunction of a clause and any number of others. -/
def appendAll (first : Clause) (others : List Clause) : Clause :=
  ⟨first.literals ++ others.flatMap literals⟩

/-- Adding clauses at once is adding one after the other. -/
theorem appendAll_eq_foldl (first : Clause) (others : List Clause) :
    first.appendAll others = others.foldl append first := by
  induction others generalizing first with
  | nil => simp only [appendAll, List.flatMap_nil, List.append_nil, List.foldl_nil]
  | cons next others ih =>
      rw [List.foldl_cons, ← ih]
      simp only [appendAll, append, List.flatMap_cons, List.append_assoc]

end Clause

end Tptp
