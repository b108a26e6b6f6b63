import Tptp.Vocabulary.Result

/-!
# Summary of a Run

What the comment lines of a transcript announce about a run.

A run has a status and a form of the data it put out, and a transcript may
announce either, both or none of them, each any number of times. The first
announcement of each counts, so summaries are joined by letting the left one
win.

## Main definitions

* `Szs.Summary`: The status and the form of the data.
* `Szs.Summary.join`: Both parts, each from the left if it is there.

## Theorems

* `Szs.Summary.join_assoc`: Announcements can be joined in any grouping.
* `Szs.Summary.empty_join`, `Szs.Summary.join_empty`: Nothing adds nothing.
-/

namespace Tptp

namespace Szs

/-- What is announced about a run. -/
structure Summary where
  /-- The status of the run. -/
  status : Option Status
  /-- The form of the data the run put out. -/
  dataform : Option Dataform
deriving DecidableEq

namespace Summary

/-- Nothing is announced. -/
def empty : Summary := ⟨none, none⟩

/-- Both parts, each from `a` if it is there and else from `b`. -/
def join (a b : Summary) : Summary :=
  ⟨a.status.or b.status, a.dataform.or b.dataform⟩

/-- Announcements can be joined in any grouping. -/
theorem join_assoc (a b c : Summary) : (a.join b).join c = a.join (b.join c) := by
  simp only [join, Option.or_assoc]

/-- Nothing adds nothing on the left. -/
theorem empty_join (a : Summary) : empty.join a = a := by
  simp only [join, empty, Option.none_or]

/-- Nothing adds nothing on the right. -/
theorem join_empty (a : Summary) : a.join empty = a := by
  simp only [join, empty, Option.or_none]

end Summary

end Szs

end Tptp
