import Tptp.Formula.FirstOrder
import Tptp.Signature

/-!
# Traversals That May Fail

What a list is replaced by when every element is, and what it takes to fail.

Sorts and formulas of one language become those of another by replacing their
parts, each of which may be rejected. The replacement of a list succeeds exactly
if that of every element does; here are the two directions in the form in which
the conversions of the library need them.

## Theorems

* `mem_of_mapM`: Every replaced element comes from one of the list.
* `mapM_eq_none`: A list that is rejected has an element that is.
* `mapM_ne_nil`: Nothing is dropped.
* `FirstOrder.mapM_map`, `FirstOrder.eq_map_of_mapM`: A replacement taken back.
* `FirstOrder.mapM_eq_none`: A formula that is rejected has a note that is.
* `PolySort.plain?_eq_none_iff`: A sort is rejected if it is not plain.
-/

namespace Tptp

section

variable {α β : Type} {f : α → Option β}

/-- Every replaced element comes from one of the list. -/
theorem mem_of_mapM {list : List α} {out : List β} (h : list.mapM f = some out) {b : β}
    (hb : b ∈ out) : ∃ a ∈ list, f a = some b := by
  induction list generalizing out with
  | nil =>
      rw [List.mapM_nil] at h
      rw [← Option.some.inj h] at hb
      exact absurd hb List.not_mem_nil
  | cons first others ih =>
      simp only [List.mapM_cons, Option.bind_eq_bind, Option.bind_eq_some_iff, Option.pure_def,
        Option.some.injEq] at h
      rcases h with ⟨c, hc, rest, hrest, rfl⟩
      rcases List.mem_cons.mp hb with rfl | hb
      · exact ⟨first, List.mem_cons_self, hc⟩
      · rcases ih hrest hb with ⟨a, ha, hab⟩
        exact ⟨a, List.mem_cons_of_mem _ ha, hab⟩

/-- A list that is rejected has an element that is. -/
theorem mapM_eq_none {list : List α} (h : list.mapM f = none) : ∃ a ∈ list, f a = none := by
  induction list with
  | nil =>
      rw [List.mapM_nil] at h
      exact absurd h (Option.some_ne_none _)
  | cons first others ih =>
      rcases hfirst : f first with _ | b
      · exact ⟨first, List.mem_cons_self, hfirst⟩
      · rcases hothers : others.mapM f with _ | rest
        · rcases ih hothers with ⟨a, ha, hnone⟩
          exact ⟨a, List.mem_cons_of_mem _ ha, hnone⟩
        · rw [List.mapM_cons, hfirst, hothers] at h
          exact absurd h (Option.some_ne_none _)

/-- Nothing is dropped. -/
theorem mapM_ne_nil {list : List α} {out : List β} (h : list.mapM f = some out)
    (hne : list ≠ []) : out ≠ [] := by
  cases list with
  | nil => exact absurd rfl hne
  | cons first others =>
      simp only [List.mapM_cons, Option.bind_eq_bind, Option.bind_eq_some_iff, Option.pure_def,
        Option.some.injEq] at h
      rcases h with ⟨c, _, rest, _, rfl⟩
      exact List.cons_ne_nil _ _

end

namespace FirstOrder

variable {α β : Type}

variable {f : α → β} {g : β → Option α}

/-- A replacement that can be taken back note by note can be taken back. -/
theorem mapM_map (h : ∀ a, g (f a) = some a) (formula : FirstOrder α) :
    (formula.map f).mapM g = some formula := by
  induction formula with
  | atomic => rfl
  | negated formula ih => simp only [map, mapM, ih, Option.bind_eq_bind, Option.bind_some,
      Option.pure_def]
  | connected left connective right ihl ihr => simp only [map, mapM, ihl, ihr,
      Option.bind_eq_bind, Option.bind_some, Option.pure_def]
  | quantified quantifier bound formula ih =>
      have hbound : (bound.map fun entry => (entry.1, f entry.2)).mapM
          (fun entry => (g entry.2).bind fun a => some (entry.1, a)) = some bound := by
        induction bound with
        | nil => rfl
        | cons entry others ihb =>
            simp only [List.map_cons, List.mapM_cons, h, ihb, Option.bind_eq_bind,
              Option.bind_some, Option.pure_def]
      simp only [map, mapM, Option.bind_eq_bind, Option.pure_def, hbound, ih, Option.bind_some]

/-- What a replacement comes to that takes another one back. -/
theorem eq_map_of_mapM (h : ∀ a b, g b = some a → b = f a) {formula : FirstOrder β}
    {out : FirstOrder α} (hout : formula.mapM g = some out) : formula = out.map f := by
  induction formula generalizing out with
  | atomic =>
      rw [← Option.some.inj hout]
      rfl
  | negated formula ih =>
      simp only [mapM, Option.bind_eq_bind, Option.bind_eq_some_iff, Option.pure_def,
        Option.some.injEq] at hout
      rcases hout with ⟨inner, hinner, rfl⟩
      rw [map, ← ih hinner]
  | connected left connective right ihl ihr =>
      simp only [mapM, Option.bind_eq_bind, Option.bind_eq_some_iff, Option.pure_def,
        Option.some.injEq] at hout
      rcases hout with ⟨l, hl, r, hr, rfl⟩
      rw [map, ← ihl hl, ← ihr hr]
  | quantified quantifier bound formula ih =>
      simp only [mapM, Option.bind_eq_bind, Option.bind_eq_some_iff, Option.pure_def,
        Option.some.injEq] at hout
      rcases hout with ⟨entries, hentries, inner, hinner, rfl⟩
      -- The entries of the list are taken back one by one, and keep their variables.
      have hbound : bound = entries.map fun entry => (entry.1, f entry.2) := by
        clear ih hinner
        induction bound generalizing entries with
        | nil =>
            rw [List.mapM_nil] at hentries
            rw [← Option.some.inj hentries]
            rfl
        | cons entry others ihb =>
            simp only [List.mapM_cons, Option.bind_eq_bind, Option.bind_eq_some_iff,
              Option.pure_def, Option.some.injEq] at hentries
            rcases hentries with ⟨_, ⟨a, ha, rfl⟩, rest, hrest, rfl⟩
            exact List.cons_eq_cons.mpr ⟨Prod.ext rfl (h a entry.2 ha), ihb rest hrest⟩
      rw [map, ← ih hinner]
      exact congrArg (FirstOrder.quantified quantifier · formula) hbound

/-- A formula that is rejected has a note that is. -/
theorem mapM_eq_none {formula : FirstOrder β} (h : formula.mapM g = none) :
    ∃ b ∈ formula.notes, g b = none := by
  induction formula with
  | atomic => exact absurd h (Option.some_ne_none _)
  | negated formula ih =>
      rcases hinner : formula.mapM g with _ | inner
      · exact ih hinner
      · rw [mapM, hinner] at h
        exact absurd h (Option.some_ne_none _)
  | connected left connective right ihl ihr =>
      rcases hl : left.mapM g with _ | l
      · rcases ihl hl with ⟨b, hb, hnone⟩
        exact ⟨b, List.mem_append_left _ hb, hnone⟩
      · rcases hr : right.mapM g with _ | r
        · rcases ihr hr with ⟨b, hb, hnone⟩
          exact ⟨b, List.mem_append_right _ hb, hnone⟩
        · rw [mapM, hl, hr] at h
          exact absurd h (Option.some_ne_none _)
  | quantified quantifier bound formula ih =>
      rw [mapM] at h
      have hbound := Option.bind_eq_none_iff.mp h
      rcases hentries : bound.mapM (fun entry => (g entry.2).bind fun a => some (entry.1, a)) with
        _ | entries
      · rcases Tptp.mapM_eq_none hentries with ⟨entry, hentry, hnone⟩
        refine ⟨entry.2, List.mem_append_left _ (List.mem_map_of_mem hentry), ?_⟩
        -- An entry is rejected for its note.
        rcases hb : g entry.2 with _ | a
        · rfl
        · simp only [hb, Option.bind_some, reduceCtorEq] at hnone
      · rcases hinner : formula.mapM g with _ | inner
        · rcases ih hinner with ⟨b, hb, hnone⟩
          exact ⟨b, List.mem_append_right _ hb, hnone⟩
        · have hnone := hbound entries hentries
          rw [hinner] at hnone
          exact absurd hnone (Option.some_ne_none _)

end FirstOrder

/-- The sort is a constructor without arguments. -/
def PolySort.IsPlain {ν : Type} (sort : PolySort ν) : Prop :=
  ∃ name, sort = .application name []

/-- A sort has a plain name exactly if it is plain. -/
theorem PolySort.plain?_eq_none_iff {ν : Type} (sort : PolySort ν) :
    sort.plain? = none ↔ ¬ sort.IsPlain := by
  rcases sort with v | ⟨name, _ | ⟨first, others⟩⟩
  · simp only [PolySort.plain?, PolySort.IsPlain, reduceCtorEq, exists_false, not_false_eq_true]
  · exact ⟨fun h => absurd h (Option.some_ne_none _), fun h => absurd ⟨name, rfl⟩ h⟩
  · simp only [PolySort.plain?, PolySort.IsPlain, PolySort.application.injEq, reduceCtorEq,
      and_false, exists_false, not_false_eq_true]

/-- The plain name of a sort is all there is to it. -/
theorem PolySort.eq_of_plain?_eq_some {ν : Type} {sort : PolySort ν} {name : ν}
    (h : sort.plain? = some name) : sort = .application name [] := by
  rcases sort with v | ⟨found, _ | ⟨first, others⟩⟩
  · exact absurd h (by simp only [PolySort.plain?, reduceCtorEq, not_false_eq_true])
  · rw [Option.some.inj h]
  · exact absurd h (by simp only [PolySort.plain?, reduceCtorEq, not_false_eq_true])

end Tptp
