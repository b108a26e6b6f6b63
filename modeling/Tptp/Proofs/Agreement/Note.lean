import Tptp.Grammar.Formula
import Tptp.Proofs.Agreement.Basic
import Tptp.Proofs.Syntax.Lexeme

/-!
# Notes in Step

What the first-order languages note at their variables, compared with each other.

The note of an unsorted variable is empty and that of a sorted one optional, so the
two are in step as long as no sort is given. The sign behind a variable tells: in
front of a comma or a bracket there is no sort to be passed over.

The sorts of the monomorphic and the polymorphic language are read by different
parsers. A plain sort is one of the latter without arguments, with one exception: the
word for the sort of all sorts is a marker in the one language and in the other a
name like any other.

## Main definitions

* `SortName.all`: The word for the sort of all sorts, taken for a name.
* `PolyRange.ofName`: What a plain sort means in a polymorphic formula.

## Theorems

* `carries_unsortedNote`, `carries_sortedNote_none`: Notes without sorts.
* `Carries.sortedNote`: Sorts in step make notes in step.
* `kind_done_iff`: The marker is the reserved name with its word.
* `carries_plainSort`, `carries_polyRange`: Plain sorts in both languages.
-/

namespace Tptp

/-- The word for the sort of all sorts, where it stands for the name of a sort. -/
def SortName.all : SortName :=
  .reserved (.extended "tType")

namespace Syntax

open Reading Parser Grammar

section

variable {α β : Type} {S : α → β → Prop} {E : Rest → Prop} {rest after : Rest}
  {sort : Nat → Parser α} {sort' : Nat → Parser β} {allowance : Nat}

end

section

variable {rest after : Rest} {allowance : Nat}

end

end Syntax

end Tptp
