import Tptp.Formula.Basic
import Tptp.Vocabulary.Result

/-!
# Provenance

Where the formulas of a derivation come from.

A unit may end with its source, and the source with useful information. The
source says how the unit was made: read from a file, taken from a theory, made up
by a program, introduced without parents, or inferred from parents, which have
sources of their own. Information is mostly free in form; a number of its shapes
have a meaning, and those have a constructor each.

Absent information and empty information are different things, and both are
kept: `theory(t)` has none, `theory(t,[])` has an empty list.

## Main definitions

* `UnitName`: What units are called.
* `Expression`: A formula or a term quoted in a piece of information.
* `Info`: Pieces of useful information.
* `Source`, `Parent`: Where a unit comes from, and from what it was inferred.
* `Provenance`: A source with its information.
-/

namespace Tptp

/-- The name of a unit. -/
inductive UnitName where
  | atom (atom : Atom)
  | number (value : Int)
deriving DecidableEq

/-- A formula or a term quoted in a piece of information. -/
inductive Expression where
  | formula (formula : Formula)
  | term (term : Term)

/-- A symbol that an inference step made up. -/
inductive Symbol where
  | var (var : Var)
  | atom (atom : Atom)
deriving DecidableEq

/-- A piece of useful information. -/
inductive Info where
  /-- A description in words. -/
  | description (text : Atom)
  /-- What the program that wrote the unit said about it. -/
  | iquote (text : Atom)
  /-- How the conclusion relates to the parents. -/
  | status (status : Reserved Success)
  /-- The units that are assumed, of which there is at least one. -/
  | assumptions (names : List UnitName)
  /-- The symbols that a step made up, and the kind of the step. -/
  | newSymbols (name : Atom) (symbols : List Symbol)
  /-- The refutation that a conclusion rests on. -/
  | refutation (name : Atom)
  /-- A quoted formula or term. -/
  | expression (expression : Expression)
  /-- What a variable was bound to. -/
  | bind (var : Var) (expression : Expression)
  /-- A record in the form of an application. -/
  | application (name : Atom) (infos : List Info)
  /-- A number. -/
  | number (number : Number)
  /-- A list of information. -/
  | infos (infos : List Info)

/-- The assumptions of a list of units, which must not be empty. -/
def Info.ofAssumptions (names : List UnitName) : Except Refusal Info :=
  if names.isEmpty then .error .noAssumption else .ok (.assumptions names)

mutual

/-- Where a unit comes from. -/
inductive Source where
  /-- It is not known. -/
  | unknown
  /-- From another unit. -/
  | unit (name : UnitName)
  /-- From a file, and possibly from a unit of it. -/
  | file (name : Atom) (unit : Option UnitName)
  /-- From a theory. -/
  | theory (name : Atom) (infos : Option (List Info))
  /-- From a program that made it up. -/
  | creator (name : Atom) (infos : Option (List Info))
  /-- From nowhere, in a way that is given. -/
  | introduced (intro : Reserved Intro) (infos : Option (List Info))
  /-- From parents, by a rule. -/
  | inference (rule : Atom) (infos : List Info) (parents : List Parent)

/-- What a unit was inferred from. -/
inductive Parent where
  /-- A source, with information on its part in the inference. -/
  | of (source : Source) (infos : List Info)

end

/-- Where a unit comes from, with useful information. -/
structure Provenance where
  /-- The source. -/
  source : Source
  /-- The information, if a list of it was given. -/
  infos : Option (List Info)

end Tptp
