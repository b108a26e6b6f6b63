import Tptp.Provenance
import Tptp.Szs.Summary

/-!
# Problems and Transcripts

The documents of the language.

A document is a sequence of entries; what these are plays no part in putting
documents together and is a parameter. An entry of the language is a unit, which
has a name and declares something, or it includes the units of another file. A
problem, which provers read, is a document of such entries. A transcript, which
they write, has more to it, since its leading comment lines summarise the run.

## Main definitions

* `Declaration`: What a unit declares: a sort, the type of a symbol, a formula.
* `AnnotatedUnit`: A unit.
* `Include`: The inclusion of a file or of a selection of its units.
* `Document`: Sequences of entries.
* `Problem`, `Transcript`: What provers read and write.

## Theorems

* `Document.append_assoc`: Documents can be put together in any grouping.
-/

namespace Tptp

/-- What a unit declares. -/
inductive Declaration where
  /-- A sort constructor with the number of its arguments. -/
  | sort (name : Atom) (arity : Nat)
  /-- The type of a symbol. -/
  | typing (name : Atom) (signature : Signature)
  /-- A formula, and what it is there for. -/
  | formula (role : Reserved Role) (statement : Formula)

namespace Declaration

/-- The declaration of a sort constructor, whose arity must not be negative. -/
def ofArity (name : Atom) (arity : Int) : Except Refusal Declaration :=
  if 0 ≤ arity then .ok (.sort name arity.toNat) else .error (.arity arity)

/-- The language of a declaration. Sorts and types are declared in the sorted
    language. -/
def language : Declaration → Language
  | .formula _ statement => statement.language
  | _ => .tff

end Declaration

/-- A named unit. -/
structure AnnotatedUnit where
  /-- The name. -/
  name : UnitName
  /-- What the unit declares. -/
  declaration : Declaration
  /-- Where the unit comes from, if that is said. -/
  provenance : Option Provenance

/-- The language a unit is written in. -/
def AnnotatedUnit.language (unit : AnnotatedUnit) : Language :=
  unit.declaration.language

/-- The inclusion of a file. -/
structure Include where
  /-- The name of the file. -/
  file : Atom
  /-- The units that are included, of which there is at least one; without a
      selection, all of them. -/
  selection : Option (List UnitName)

/-- The inclusion of a file; a selection must not be empty. -/
def Include.ofSelection (file : Atom) (selection : Option (List UnitName)) :
    Except Refusal Include :=
  match selection with
  | some [] => .error .emptySelection
  | _ => .ok ⟨file, selection⟩

/-- An entry of a document. -/
inductive Entry where
  | inclusion (inclusion : Include)
  | unit (unit : AnnotatedUnit)

/-- A sequence of entries of type `ε`. -/
structure Document (ε : Type) where
  /-- The entries in order. -/
  entries : List ε

namespace Document

variable {ε : Type}

/-- One document after another. -/
def append (a b : Document ε) : Document ε :=
  ⟨a.entries ++ b.entries⟩

/-- Documents can be put together in any grouping. -/
theorem append_assoc (a b c : Document ε) : (a.append b).append c = a.append (b.append c) := by
  simp only [append, List.append_assoc]

end Document

/-- A problem. -/
abbrev Problem := Document Entry

/-- The transcript of a run. -/
structure Transcript where
  /-- What the leading comment lines announce. -/
  szs : Szs.Summary
  /-- The entries in order. -/
  entries : List Entry

end Tptp
