import Tptp.Proofs.Agreement.Language
import Tptp.Proofs.Asked

/-!
# Conversions, Exactly

Between which formulas the conversions lead, and which formulas they reject.

A conversion replaces the notes at bound variables, each by itself. So what it comes to is a
formula that has the replaced note at each variable and is the same in everything else, and
it is rejected for a note and for no other reason. Each conversion that may fail is the way
back of one that does not: the formulas that it accepts are those which the other one leads
to, and it leads where they come from.

## Main definitions

* `FirstOrder.Binds`: A variable that is bound in a formula, and the note at it.

## Theorems

* `FirstOrder.mem_notes_iff`: The notes of a formula are those at its variables.
* `FirstOrder.mapM_eq_some_iff`, `FirstOrder.map_eq_iff`: What replacing notes comes to.
* `FirstOrder.unsort?_eq_none_iff`: A sorted formula is rejected for a sort.
* `FirstOrder.conversion_iff`: All conversions, and the formulas that they reject.
-/

namespace Tptp

namespace FirstOrder

variable {α β σ : Type}

/-- A quantifier somewhere in the formula binds the variable, with the note at it. -/
inductive Binds (v : Var) (note : α) : FirstOrder α → Prop where
  | here {quantifier : Quantifier} {bound : List (Var × α)} {formula : FirstOrder α}
      (h : (v, note) ∈ bound) : Binds v note (.quantified quantifier bound formula)
  | under {quantifier : Quantifier} {bound : List (Var × α)} {formula : FirstOrder α}
      (h : Binds v note formula) : Binds v note (.quantified quantifier bound formula)
  | negated {formula : FirstOrder α} (h : Binds v note formula) :
      Binds v note (.negated formula)
  | left {left right : FirstOrder α} {c : Connective} (h : Binds v note left) :
      Binds v note (.connected left c right)
  | right {left right : FirstOrder α} {c : Connective} (h : Binds v note right) :
      Binds v note (.connected left c right)

/-- The notes of a formula are those at the variables that it binds. -/
theorem mem_notes_iff {note : α} {formula : FirstOrder α} :
    note ∈ formula.notes ↔ ∃ v, Binds v note formula := by
  constructor
  · intro h
    induction formula with
    | atomic => exact absurd h List.not_mem_nil
    | negated formula ih =>
        rcases ih h with ⟨v, hv⟩
        exact ⟨v, .negated hv⟩
    | connected left c right ihl ihr =>
        rcases List.mem_append.mp h with h | h
        · rcases ihl h with ⟨v, hv⟩
          exact ⟨v, .left hv⟩
        · rcases ihr h with ⟨v, hv⟩
          exact ⟨v, .right hv⟩
    | quantified quantifier bound formula ih =>
        rcases List.mem_append.mp h with h | h
        · rcases List.mem_map.mp h with ⟨entry, hentry, rfl⟩
          exact ⟨entry.1, .here hentry⟩
        · rcases ih h with ⟨v, hv⟩
          exact ⟨v, .under hv⟩
  · rintro ⟨v, h⟩
    induction h with
    | here h => exact List.mem_append_left _ (List.mem_map.mpr ⟨_, h, rfl⟩)
    | under _ ih => exact List.mem_append_right _ ih
    | negated _ ih => exact ih
    | left _ ih => exact List.mem_append_left _ ih
    | right _ ih => exact List.mem_append_right _ ih

/-- The entries of a quantifier are replaced one by one, and keep their variables. -/
theorem mapM_entries_eq_some_iff {g : α → Option β} {bound : List (Var × α)}
    {out : List (Var × β)} :
    (bound.mapM fun ((v, a) : Var × α) => do
        let b ← g a
        return (v, b)) = some out ↔
      List.Forall₂ (fun a b => a.1 = b.1 ∧ g a.2 = some b.2) bound out := by
  induction bound generalizing out with
  | nil =>
      rw [List.mapM_nil, List.forall₂_nil_left_iff]
      exact ⟨fun h => (Option.some.inj h).symm, fun h => congrArg some h.symm⟩
  | cons entry bound ih =>
      rcases entry with ⟨v, a⟩
      simp only [List.mapM_cons, Option.bind_eq_bind, Option.bind_eq_some_iff, Option.pure_def,
        Option.some.injEq, List.forall₂_cons_left_iff]
      constructor
      · rintro ⟨_, ⟨b, hb, rfl⟩, others, hothers, rfl⟩
        exact ⟨(v, b), others, ⟨rfl, hb⟩, ih.mp hothers, rfl⟩
      · rintro ⟨⟨_, b⟩, others, ⟨rfl, hb⟩, hothers, rfl⟩
        exact ⟨(v, b), ⟨b, hb, rfl⟩, others, ih.mpr hothers, rfl⟩

/-- Replacing notes comes to a formula that has the replaced notes at the same variables, and
    else is the same. -/
theorem mapM_eq_some_iff {g : α → Option β} {formula : FirstOrder α} {out : FirstOrder β} :
    formula.mapM g = some out ↔ Alike (fun a b => g a = some b) formula out := by
  constructor
  · intro h
    induction formula generalizing out with
    | atomic literal =>
        obtain rfl : .atomic literal = out := Option.some.inj h
        exact .atomic literal
    | negated formula ih =>
        simp only [mapM, Option.bind_eq_bind, Option.bind_eq_some_iff, Option.pure_def,
          Option.some.injEq] at h
        rcases h with ⟨inner, hinner, rfl⟩
        exact .negated (ih hinner)
    | connected left c right ihl ihr =>
        simp only [mapM, Option.bind_eq_bind, Option.bind_eq_some_iff, Option.pure_def,
          Option.some.injEq] at h
        rcases h with ⟨l, hl, r, hr, rfl⟩
        exact .connected c (ihl hl) (ihr hr)
    | quantified quantifier bound formula ih =>
        rw [mapM] at h
        rcases Option.bind_eq_some_iff.mp h with ⟨entries, hentries, h⟩
        rcases Option.bind_eq_some_iff.mp h with ⟨inner, hinner, h⟩
        obtain rfl : .quantified quantifier entries inner = out := Option.some.inj h
        exact .quantified quantifier (mapM_entries_eq_some_iff.mp hentries) (ih hinner)
  · intro h
    induction h with
    | atomic => rfl
    | negated _ ih => rw [mapM, ih]; rfl
    | connected c _ _ ihl ihr => rw [mapM, ihl, ihr]; rfl
    | quantified quantifier hbound _ ih =>
        rw [mapM, mapM_entries_eq_some_iff.mpr hbound, ih]
        rfl

/-- The same for a replacement that never fails. -/
theorem map_eq_iff {f : α → β} {formula : FirstOrder α} {out : FirstOrder β} :
    formula.map f = out ↔ Alike (fun a b => f a = b) formula out := by
  have h : formula.mapM (fun a => some (f a)) = some out ↔
      Alike (fun a b => some (f a) = some b) formula out := mapM_eq_some_iff
  have hmap : formula.mapM (fun a => some (f a)) = some (formula.map f) := mapM_pure f formula
  simpa only [hmap, Option.some.injEq] using h

/-- A sorted formula is rejected as an unsorted one exactly if a sort is given for some
    variable. -/
theorem unsort?_eq_none_iff {f : FirstOrder (Sorted σ)} :
    f.unsort? = none ↔ ∃ v sort, Binds v ⟨some sort⟩ f := by
  constructor
  · intro h
    rcases mapM_eq_none h with ⟨⟨_ | sort⟩, hmem, hnote⟩
    · exact absurd hnote (Option.some_ne_none _)
    · rcases mem_notes_iff.mp hmem with ⟨v, hv⟩
      exact ⟨v, sort, hv⟩
  · rintro ⟨v, sort, hv⟩
    rcases hunsort : f.unsort? with _ | u
    · rfl
    -- A formula that has an unsorted form has no sort at any variable.
    · have hmem := mem_notes_iff.mpr ⟨v, hv⟩
      rw [unsort?_eq_some_iff.mp hunsort, toSorted, notes_map] at hmem
      rcases List.mem_map.mp hmem with ⟨_, -, hnote⟩
      exact absurd (congrArg Sorted.sort hnote).symm (Option.some_ne_none sort)

/-- The conversions are ways there and back. A polymorphic formula has a monomorphic form
    exactly if it is the polymorphic form of one, which then it has, and none if some variable
    anywhere in it has a polymorphic note. A monomorphic formula has an unsorted form exactly
    if it is the sorted form of one, and none if a sort is given for some variable. What a
    conversion comes to has the replaced notes at the same variables, and else is the same. -/
theorem conversion_iff :
    (∀ (f : MonoFormula) (g : PolyFormula), g.toMono? = some f ↔ g = f.toPoly) ∧
      (∀ g : PolyFormula, g.toMono? = none ↔ ∃ v note, Binds v note g ∧ note.IsPolymorphic) ∧
      (∀ (u : UnsortedFormula) (f : MonoFormula), f.unsort? = some u ↔ f = u.toSorted) ∧
      (∀ f : MonoFormula, f.unsort? = none ↔ ∃ v sort, Binds v ⟨some sort⟩ f) ∧
      (∀ (f : MonoFormula) (g : PolyFormula),
        f.toPoly = g ↔ Alike (fun note out => note.toPoly = out) f g) ∧
      (∀ (g : PolyFormula) (f : MonoFormula),
        g.toMono? = some f ↔ Alike (fun note out => note.toMono? = some out) g f) ∧
      (∀ (u : UnsortedFormula) (f : MonoFormula),
        u.toSorted = f ↔ Alike (fun _ out => ⟨none⟩ = out) u f) ∧
      ∀ (f : MonoFormula) (u : UnsortedFormula),
        f.unsort? = some u ↔ Alike (fun note out => note.unsort? = some out) f u := by
  refine ⟨fun f g => toMono?_eq_some_iff, fun g => ?_, fun u f => unsort?_eq_some_iff,
    fun f => unsort?_eq_none_iff, fun f g => map_eq_iff, fun g f => mapM_eq_some_iff,
    fun u f => map_eq_iff, fun f u => mapM_eq_some_iff⟩
  rw [toMono?_eq_none_iff]
  constructor
  · rintro ⟨note, hmem, hnote⟩
    rcases mem_notes_iff.mp hmem with ⟨v, hv⟩
    exact ⟨v, note, hv, hnote⟩
  · rintro ⟨v, note, hv, hnote⟩
    exact ⟨note, mem_notes_iff.mpr ⟨v, hv⟩, hnote⟩

end FirstOrder

end Tptp
