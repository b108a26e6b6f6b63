import Tptp.Formula.Conversion
import Tptp.Proofs.Asked
import Tptp.Proofs.Regrouping.Rotation

/-!
# Regrouping Between Languages

Whether a formula is regrouped before or after its notes are replaced makes no difference.

A shift of parentheses leaves the notes in place: those of three operands come one after
the other in either grouping. So replacing notes with an effect has the same effect on both,
whatever the effect is. With the effect of failing, a regrouped formula is rejected if the
formula is; with that of keeping a record, the replacement is called for the same notes in
the same order. The conversions between the languages are replacements of this kind.

The induction follows `reassociate`, which goes by structure, and for a chain `graft`. How
often a rotation moves an operand plays no part in it.

## Theorems

* `FirstOrder.mapM_reassociate`: Regrouping commutes with replacing notes by any effect.
* `FirstOrder.notes_reassociate`: Regrouping keeps the notes in order.
* `FirstOrder.trace_reassociate`: The same notes are asked about.
* `FirstOrder.replacement_reassociate`: Regrouping commutes with all conversions.
-/

namespace Tptp

namespace FirstOrder

variable {α β : Type}

section

variable {m : Type → Type} [Monad m] [LawfulMonad m]

/-- What is no chain becomes none, and is joined as it is. -/
theorem mapM_of_not_isChain {c : Connective} {right : FirstOrder α} (h : ¬ right.IsChain c)
    (g : α → m β) (left : FirstOrder β) :
    (do let right ← right.mapM g; return graft c left right) = do
      let right ← right.mapM g
      return connected left c right := by
  cases right with
  | connected first inner last =>
      have hinner : ¬ inner = c := h
      simp only [mapM, bind_assoc, pure_bind, graft, if_neg hinner]
  | atomic => simp only [mapM, pure_bind, graft]
  | negated => simp only [mapM, bind_assoc, pure_bind, graft]
  | quantified => simp only [mapM, bind_assoc, pure_bind, graft]

/-- The notes of two joined chains are replaced one chain after the other. -/
theorem mapM_graft (g : α → m β) (c : Connective) (left right : FirstOrder α) :
    (graft c left right).mapM g = do
      let left ← left.mapM g
      let right ← right.mapM g
      return graft c left right := by
  have hsingle : ∀ {right : FirstOrder α}, ¬ right.IsChain c →
      (graft c left right).mapM g = do
        let left ← left.mapM g
        let right ← right.mapM g
        return graft c left right := fun hright => by
    rw [graft_of_not_isChain hright, mapM]
    exact bind_congr fun l => (mapM_of_not_isChain hright g l).symm
  induction right with
  | connected first inner last ih _ =>
      by_cases hinner : inner = c
      · subst hinner
        rw [graft_connected, mapM, mapM, ih]
        simp only [bind_assoc, pure_bind, graft_connected]
      · exact hsingle hinner
  | atomic => exact hsingle id
  | negated => exact hsingle id
  | quantified => exact hsingle id

/-- Regrouping commutes with replacing notes, whatever effect that has. -/
theorem mapM_reassociate (g : α → m β) (formula : FirstOrder α) :
    formula.reassociate.mapM g = reassociate <$> formula.mapM g := by
  induction formula with
  | atomic => simp only [reassociate, mapM, map_pure]
  | negated formula ih => simp only [reassociate, mapM, ih, map_bind, bind_map_left, map_pure]
  | connected left c right ihl ihr =>
      simp only [reassociate, mapM, map_bind, map_pure]
      split
      · simp only [mapM_graft, ihl, ihr, bind_map_left]
      · simp only [mapM, ihl, ihr, bind_map_left]
  | quantified quantifier bound formula ih =>
      simp only [reassociate, mapM, ih, map_bind, bind_map_left, map_pure]

end

/-- A regrouped formula is rejected if the formula is, for the same notes. -/
theorem trace_reassociate (g : α → Option β) (formula : FirstOrder α) :
    trace g formula.reassociate = ((formula.mapM g).map reassociate, (trace g formula).2) := by
  have hrun : (reassociate <$> formula.mapM (recorded g)).run.run [] =
      ((formula.mapM g).map reassociate, (trace g formula).2) := by
    rw [← bind_pure_comp, Recorder.run_bind, trace, run_mapM_recorded]
    rcases formula.mapM g with _ | out <;> rfl
  rw [trace, mapM_reassociate, hrun]

/-- Regrouping keeps the notes in order. -/
theorem notes_reassociate (formula : FirstOrder α) : formula.reassociate.notes = formula.notes := by
  have h := congrArg Prod.snd (trace_reassociate (fun a => some (id a)) formula)
  rwa [trace_some, trace_some] at h

/-- Regrouping commutes with replacing notes, be it a replacement that may fail or one that
    does not, and the replacement is called for the same notes in the same order. So it
    commutes with the conversions between the languages. -/
theorem replacement_reassociate :
    (∀ (f : FirstOrder α) (g : α → Option β),
      (f.reassociate.mapM g = none ↔ f.mapM g = none) ∧
        f.reassociate.mapM g = (f.mapM g).map reassociate ∧
        (trace g f).1 = f.mapM g ∧ (trace g f.reassociate).1 = f.reassociate.mapM g ∧
        (trace g f.reassociate).2 = (trace g f).2) ∧
      (∀ (f : FirstOrder α) (g : α → β),
        f.reassociate.map g = (f.map g).reassociate ∧
          trace (fun a => some (g a)) f = (some (f.map g), f.notes) ∧
          trace (fun a => some (g a)) f.reassociate = (some (f.reassociate.map g), f.notes)) ∧
      (∀ f : PolyFormula, f.reassociate.toMono? = f.toMono?.map reassociate) ∧
      (∀ f : MonoFormula, f.reassociate.unsort? = f.unsort?.map reassociate) ∧
      (∀ f : MonoFormula, f.reassociate.toPoly = f.toPoly.reassociate) ∧
      ∀ f : UnsortedFormula,
        (f.reassociate.toSorted : MonoFormula) = (f.toSorted : MonoFormula).reassociate := by
  have hmapM : ∀ {α β : Type} (f : FirstOrder α) (g : α → Option β),
      f.reassociate.mapM g = (f.mapM g).map reassociate := fun f g => mapM_reassociate g f
  have hresult : ∀ (f : FirstOrder α) (g : α → Option β), (trace g f).1 = f.mapM g := fun f g => by
    rw [trace_eq]
  refine ⟨fun f g => ⟨?_, hmapM f g, hresult f g, hresult _ g, ?_⟩, fun f g =>
    ⟨map_reassociate g f, trace_some g f, ?_⟩, fun f => hmapM f _, fun f => hmapM f _,
    fun f => map_reassociate _ f, fun f => map_reassociate _ f⟩
  · rw [hmapM, Option.map_eq_none_iff]
  · rw [trace_reassociate]
  · rw [trace_some, notes_reassociate]

end FirstOrder

end Tptp
