import Tptp.Formula.FirstOrder
import Tptp.Signature

/-!
# Conversions Between Sorted Languages

The three first-order languages and the ways between them.

What distinguishes the languages is the note at a bound variable. An unsorted
formula notes nothing. A monomorphic formula may name a plain sort, and a
variable without one ranges over individuals. A polymorphic formula may give any
sort, or say that the variable ranges over the sorts themselves.

Every unsorted formula is a monomorphic one, and every monomorphic formula a
polymorphic one. The ways back exist only for formulas that come from there.

## Main definitions

* `Unsorted`, `Sorted`, `PolyRange`: The notes of the three languages.
* `UnsortedFormula`, `MonoFormula`, `PolyFormula`: Their formulas.
* `FirstOrder.toSorted`, `FirstOrder.unsort?`: Between unsorted and sorted.
* `FirstOrder.toPoly`, `FirstOrder.toMono?`: Between monomorphic and
  polymorphic.

## Theorems

* `Sorted.toMono?_toPoly`: A plain sort is read back from its polymorphic form.
-/

namespace Tptp

/-- The note of a variable in an unsorted formula. -/
inductive Unsorted where
  | unsorted
deriving DecidableEq

/-- The note of a variable in a sorted formula. -/
structure Sorted (σ : Type) where
  /-- The sort that was given; a variable without one ranges over individuals. -/
  sort : Option σ

/-- What a variable of a polymorphic formula ranges over. -/
inductive PolyRange (ν : Type) where
  /-- The sorts themselves. -/
  | sorts
  /-- The members of a sort. -/
  | members (sort : PolySort ν)

/-- A formula without sorts. -/
abbrev UnsortedFormula := FirstOrder Unsorted

/-- A formula whose variables range over plain sorts. -/
abbrev MonoFormula := FirstOrder (Sorted SortName)

/-- A formula whose variables range over sorts of any kind. -/
abbrev PolyFormula := FirstOrder (Sorted (PolyRange SortName))

/-- The note of a plain sort, read as that of a sort. -/
def Sorted.toPoly {ν : Type} (note : Sorted ν) : Sorted (PolyRange ν) :=
  ⟨note.sort.map fun name => .members (.application name [])⟩

/-- The note of a sort, if it is missing or plain. -/
def Sorted.toMono? {ν : Type} (note : Sorted (PolyRange ν)) : Option (Sorted ν) :=
  match note.sort with
  | none => some ⟨none⟩
  | some .sorts => none
  | some (.members sort) => sort.plain?.map fun name => ⟨some name⟩

/-- A missing note. -/
def Sorted.unsort? {σ : Type} (note : Sorted σ) : Option Unsorted :=
  match note.sort with
  | none => some .unsorted
  | some _ => none

namespace FirstOrder

/-- A formula with no sort given for any variable. -/
def toSorted {α σ : Type} (formula : FirstOrder α) : FirstOrder (Sorted σ) :=
  formula.map fun _ => ⟨none⟩

/-- A sorted formula as an unsorted one, unless a sort is given for some
    variable. -/
def unsort? {σ : Type} (formula : FirstOrder (Sorted σ)) : Option UnsortedFormula :=
  formula.mapM Sorted.unsort?

/-- A monomorphic formula as a polymorphic one. -/
def toPoly {ν : Type} (formula : FirstOrder (Sorted ν)) : FirstOrder (Sorted (PolyRange ν)) :=
  formula.map Sorted.toPoly

/-- A polymorphic formula as a monomorphic one, unless some variable ranges over
    the sorts or over a sort that is not plain. -/
def toMono? {ν : Type} (formula : FirstOrder (Sorted (PolyRange ν))) :
    Option (FirstOrder (Sorted ν)) :=
  formula.mapM Sorted.toMono?

end FirstOrder

/-- A plain sort is read back from its polymorphic form. -/
theorem Sorted.toMono?_toPoly {ν : Type} (note : Sorted ν) :
    note.toPoly.toMono? = some note := by
  obtain ⟨_ | name⟩ := note <;> rfl

end Tptp
