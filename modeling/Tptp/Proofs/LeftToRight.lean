import Tptp.Proofs.Asked

/-!
# Replacing Notes from Left to Right

What a replacement that may fail comes to, and what it is asked on the way.

The notes of a formula are asked about from left to right. With the first one that is
rejected the replacement is over, and it has failed; if there is none, it has been asked
about all of them, and the result has the replaced notes and nothing else changed.

A replacement that may fail is also one that never does, by notes that may be missing.
Where none is missing, the result is the formula with these notes. So all that is known
about replacements without an effect can be used for those that fail. Two of them in a row
are an example: the first one may have been asked about all notes when the second one is
rejected, whereas both at once stop there, yet they come to the same.

## Main definitions

* `UpToRejection`: The elements of a list up to the first one that is rejected.

## Theorems

* `upToRejection_asked`: What is asked, without recursion.
* `FirstOrder.mapM_map_eq`: A replacement without an effect, and then one with an effect.
* `FirstOrder.mapM_eq_none_iff`: A formula is rejected for a note.
* `FirstOrder.mapM_eq_some_iff_map`: A result has all the replaced notes.
* `FirstOrder.mapM_bind_mapM`: Two replacements that may fail are one.
* `FirstOrder.replacement_leftToRight`: Order, failure and result of replacements.
-/

namespace Tptp

variable {α β γ : Type}

/-- The whole list if nothing in it is rejected, and else its elements up to the first one
    that is, that one included. -/
inductive UpToRejection (g : α → Option β) : List α → List α → Prop where
  | whole {list : List α} (h : ∀ a ∈ list, g a ≠ none) : UpToRejection g list list
  | rejected {front later : List α} {a : α} (h : ∀ b ∈ front, g b ≠ none) (ha : g a = none) :
      UpToRejection g (front ++ a :: later) (front ++ [a])

/-- An element in front that is not rejected is one of them. -/
theorem UpToRejection.cons {g : α → Option β} {a : α} {list requests : List α} (ha : g a ≠ none)
    (h : UpToRejection g list requests) : UpToRejection g (a :: list) (a :: requests) := by
  cases h with
  | whole h => exact .whole (List.forall_mem_cons.mpr ⟨ha, h⟩)
  | rejected h hlast => exact .rejected (List.forall_mem_cons.mpr ⟨ha, h⟩) hlast

/-- What is asked ends with the first element that is rejected. -/
theorem upToRejection_asked (g : α → Option β) (list : List α) :
    UpToRejection g list (asked g list) := by
  induction list with
  | nil => exact .whole fun a ha => absurd ha List.not_mem_nil
  | cons a list ih =>
      rw [asked]
      rcases ha : g a with _ | b
      · have hfront : ∀ b ∈ ([] : List α), g b ≠ none := fun b hb => absurd hb List.not_mem_nil
        exact .rejected hfront ha
      · rw [Option.isSome_some, if_pos rfl]
        exact ih.cons (ha ▸ Option.some_ne_none b)

namespace FirstOrder

/-- A replacement without an effect, and then one of its results, are one replacement. -/
theorem mapM_map_eq {m : Type → Type} [Monad m] [LawfulMonad m] (f : α → β) (g : β → m γ)
    (formula : FirstOrder α) : (formula.map f).mapM g = formula.mapM fun a => g (f a) := by
  induction formula with
  | atomic => rfl
  | negated _ ih => rw [map, mapM, mapM, ih]
  | connected _ _ _ ihl ihr => rw [map, mapM, mapM, ihl, ihr]
  | quantified _ _ _ ih => simp only [map, mapM, ih, List.mapM_map, Function.comp_def]

/-- A formula is rejected exactly if one of its notes is. -/
theorem mapM_eq_none_iff {g : α → Option β} {formula : FirstOrder α} :
    formula.mapM g = none ↔ ∃ a ∈ formula.notes, g a = none := by
  refine ⟨mapM_eq_none, fun ⟨a, ha, hnone⟩ => ?_⟩
  rw [← Option.not_isSome_iff_eq_none, isSome_mapM, List.all_eq_true]
  intro hall
  have hsome := hall a ha
  rw [hnone] at hsome
  exact Bool.false_ne_true hsome

/-- A formula is the result if its notes are those that come out, and none is missing. -/
theorem mapM_eq_some_iff_map {g : α → Option β} {formula : FirstOrder α} {out : FirstOrder β} :
    formula.mapM g = some out ↔ formula.map g = out.map some := by
  have hid : formula.mapM g = (formula.map g).mapM id := (mapM_map_eq g id formula).symm
  rw [hid]
  constructor
  · exact eq_map_of_mapM fun _ _ h => h
  · intro h
    rw [h]
    exact mapM_map (g := id) (fun _ => rfl) out

/-- Two replacements that may fail are one. The second of them is asked nothing if the first
    one fails, but then both of them together fail as well. -/
theorem mapM_bind_mapM (g : α → Option β) (h : β → Option γ) (formula : FirstOrder α) :
    (formula.mapM g).bind (mapM h) = formula.mapM fun a => (g a).bind h := by
  rcases hmiddle : formula.mapM g with _ | middle
  · rcases mapM_eq_none_iff.mp hmiddle with ⟨a, ha, hnone⟩
    refine (mapM_eq_none_iff.mpr ⟨a, ha, ?_⟩).symm
    rw [hnone, Option.bind_none]
  · have hmap := mapM_eq_some_iff_map.mp hmiddle
    -- Both sides replace the notes of the formula in the middle.
    calc middle.mapM h = (middle.map some).mapM fun b => b.bind h :=
          (mapM_map_eq some (fun b => b.bind h) middle).symm
      _ = (formula.map g).mapM fun b => b.bind h := by rw [hmap]
      _ = formula.mapM fun a => (g a).bind h := mapM_map_eq g _ formula

/-- A replacement that may fail is asked about the notes from left to right, up to the first
    one that it rejects or else about all of them. It fails exactly if it rejects a note, and
    it comes to what a replacement that does not fail makes of the formula. Of these, the one
    that keeps all notes keeps the formula, and two of them are one; so are two that may
    fail. -/
theorem replacement_leftToRight :
    (∀ (g : α → Option β) (f : FirstOrder α),
      (trace g f).1 = f.mapM g ∧ UpToRejection g f.notes (trace g f).2 ∧
        (f.mapM g = none ↔ ∃ a ∈ f.notes, g a = none) ∧
        ∀ out, f.mapM g = some out ↔ f.map g = out.map some) ∧
      (∀ f : FirstOrder α, f.map id = f) ∧
      (∀ (g : α → β) (h : β → γ) (f : FirstOrder α), (f.map g).map h = f.map (h ∘ g)) ∧
      ∀ (g : α → Option β) (h : β → Option γ) (f : FirstOrder α),
        (f.mapM g).bind (mapM h) = f.mapM fun a => (g a).bind h := by
  refine ⟨fun g f => ⟨?_, ?_, mapM_eq_none_iff, fun out => mapM_eq_some_iff_map⟩, map_id,
    fun g h f => map_map h g f, mapM_bind_mapM⟩
  · rw [trace_eq]
  · rw [trace_eq]
    exact upToRejection_asked g f.notes

end FirstOrder

end Tptp
