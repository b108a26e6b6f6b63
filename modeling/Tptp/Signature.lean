import Tptp.Name
import Tptp.Vocabulary.Logic

/-!
# Sorts and Types

What symbols are declared to take and to give.

A sort is a variable over sorts or a constructor applied to sorts; a constructor
without arguments is a plain sort. What constructors are called plays no part in
that and is a parameter. A type lists the sorts of the arguments and
that of the result, and may quantify over sort variables.

A type without any polymorphism could be written down in two ways, as a type
over plain sorts and as one over general ones. `Signature.ofSorts` decides: it
takes the plain form whenever there is one, so that equal types are equal
values.

## Main definitions

* `SortName`: The name of a plain sort or of a sort constructor.
* `PolySort`: Sorts.
* `PolySort.plain?`: The name of a sort that is plain.
* `Signature`: Types, over plain sorts or over general ones.
* `Signature.ofSorts`: The type with given variables, arguments and result.
-/

namespace Tptp

/-- The name of a plain sort or of a sort constructor. -/
abbrev SortName := Name DefinedSort

/-- A sort, with names of type `ν` for its constructors. -/
inductive PolySort (ν : Type) where
  /-- A variable that a type or a formula binds. -/
  | var (var : Var)
  /-- A constructor with its arguments; a plain sort has none. -/
  | application (name : ν) (arguments : List (PolySort ν))

/-- The name of a plain sort. -/
def PolySort.plain? {ν : Type} : PolySort ν → Option ν
  | .application name [] => some name
  | _ => none

/-- The type of a symbol. -/
inductive Signature where
  /-- A type over plain sorts. -/
  | mono (arguments : List SortName) (result : SortName)
  /-- A type that binds sort variables or has a sort that is not plain. -/
  | poly (bound : List Var) (arguments : List (PolySort SortName)) (result : PolySort SortName)

/-- The type with the given sort variables, argument sorts and result sort: over
    plain sorts if nothing is bound and every sort is plain. -/
def Signature.ofSorts (bound : List Var) (arguments : List (PolySort SortName))
    (result : PolySort SortName) : Signature :=
  match bound, arguments.mapM PolySort.plain?, result.plain? with
  -- Nothing here needs polymorphism, so the plain form is the only one.
  | [], some arguments, some result => .mono arguments result
  | _, _, _ => .poly bound arguments result

end Tptp
