import Tptp.Proofs.Traversal

/-!
# What a Replacement Is Asked

The notes that a replacement is called for, one after the other.

The result of a replacement that may fail does not tell which notes were looked at, nor in
which order. Replacing notes is the same whatever the effect is, so it can be watched: with a
replacement that keeps a record of the notes it is called for, besides its result. The
record shows that the notes are taken from left to right, up to the first one that is rejected.

## Main definitions

* `Recorder`: The effect of failing and of keeping a record.
* `recorded`: A replacement that records what it is called for.
* `FirstOrder.trace`: The result of replacing notes, with the record.
* `asked`: The notes of a list up to the first one that is rejected.

## Theorems

* `FirstOrder.run_mapM_recorded`: The record that replacing notes adds to another one.
* `FirstOrder.mapM_pure`: A replacement without an effect is a function.
* `FirstOrder.trace_eq`: Notes are taken from left to right, until one is rejected.
* `FirstOrder.trace_some`: Without rejections all notes are taken.
-/

namespace Tptp

variable {α β γ : Type}

/-- The effect of failing and of keeping a record, which a failure does not undo. -/
abbrev Recorder (α : Type) := OptionT (StateM (List α))

/-- A replacement that records what it is called for. -/
def recorded (g : α → Option β) (a : α) : Recorder α β :=
  OptionT.mk fun record => (g a, record ++ [a])

/-- The elements of a list up to the first one that is rejected, that one included. -/
def asked (g : α → Option β) : List α → List α
  | [] => []
  | a :: others => if (g a).isSome then a :: asked g others else [a]

/-- Behind a rejected element nothing is asked. -/
theorem asked_append (g : α → Option β) (first later : List α) :
    asked g (first ++ later) =
      if first.all fun a => (g a).isSome then asked g first ++ asked g later
      else asked g first := by
  induction first with
  | nil => rfl
  | cons a first ih =>
      rw [List.cons_append, asked, asked, List.all_cons, ih]
      rcases g a with _ | b
      · rfl
      · simp only [Option.isSome_some, if_true, Bool.true_and]
        split <;> rfl

/-- If nothing is rejected, all elements are asked. -/
theorem asked_some (f : α → β) (list : List α) : asked (fun a => some (f a)) list = list := by
  induction list with
  | nil => rfl
  | cons a list ih => rw [asked, ih, Option.isSome_some, if_pos rfl]

namespace Recorder

theorem run_pure (value : β) (record : List α) :
    (pure value : Recorder α β).run.run record = (some value, record) := rfl

theorem run_recorded (g : α → Option β) (a : α) (record : List α) :
    (recorded g a).run.run record = (g a, record ++ [a]) := rfl

/-- The second step starts with the record of the first, and only if that has not failed. -/
theorem run_bind (first : Recorder α β) (next : β → Recorder α γ) (record : List α) :
    (first >>= next).run.run record =
      match first.run.run record with
      | (some value, later) => (next value).run.run later
      | (none, later) => (none, later) := by
  rw [OptionT.run_bind, Option.elimM, StateT.run_bind]
  change (match first.run.run record with
    | (result, later) => (result.elim (pure none) fun value => (next value).run).run later) = _
  rcases first.run.run record with ⟨_ | value, later⟩ <;> rfl

end Recorder

/-- The entries of a quantifier are taken in order, until one is rejected. -/
theorem run_mapM_entries (g : α → Option β) (bound : List (Var × α)) (record : List α) :
    (bound.mapM fun ((v, a) : Var × α) => do
        let b ← recorded g a
        return (v, b)).run.run record =
      (bound.mapM fun ((v, a) : Var × α) => do
        let b ← g a
        return (v, b), record ++ asked g (bound.map Prod.snd)) := by
  induction bound generalizing record with
  | nil => exact congrArg _ (List.append_nil record).symm
  | cons entry bound ih =>
      rcases entry with ⟨v, a⟩
      simp only [List.mapM_cons, List.map_cons, Recorder.run_bind, Recorder.run_recorded, asked]
      rcases g a with _ | b
      · rfl
      · simp only [Recorder.run_pure, ih, Option.isSome_some, if_true, List.append_assoc,
          List.singleton_append, Option.bind_eq_bind, Option.bind_some, Option.pure_def]
        rcases bound.mapM _ with _ | entries <;> rfl

/-- A quantifier has its entries replaced exactly if no note is rejected. -/
theorem isSome_mapM_entries (g : α → Option β) (bound : List (Var × α)) :
    (bound.mapM fun ((v, a) : Var × α) => do
        let b ← g a
        return (v, b)).isSome = (bound.map Prod.snd).all fun a => (g a).isSome := by
  induction bound with
  | nil => rfl
  | cons entry bound ih =>
      rcases entry with ⟨v, a⟩
      simp only [List.mapM_cons, List.map_cons, List.all_cons, ← ih]
      rcases g a with _ | b
      · rfl
      · rcases bound.mapM _ with _ | entries <;> rfl

namespace FirstOrder

/-- The result of replacing the notes of a formula, with a record of the notes that the
    replacement was called for. -/
def trace (g : α → Option β) (formula : FirstOrder α) : Option (FirstOrder β) × List α :=
  (formula.mapM (recorded g)).run.run []

/-- A formula has its notes replaced exactly if none is rejected. -/
theorem isSome_mapM (g : α → Option β) (formula : FirstOrder α) :
    (formula.mapM g).isSome = formula.notes.all fun a => (g a).isSome := by
  induction formula with
  | atomic => rfl
  | negated formula ih =>
      rw [notes, ← ih, mapM]
      rcases formula.mapM g with _ | inner <;> rfl
  | connected left connective right ihl ihr =>
      rw [notes, List.all_append, ← ihl, ← ihr, mapM]
      rcases left.mapM g with _ | l
      · rfl
      · rcases right.mapM g with _ | r <;> rfl
  | quantified quantifier bound formula ih =>
      rw [notes, List.all_append, ← ih, ← isSome_mapM_entries, mapM]
      rcases bound.mapM _ with _ | entries
      · rfl
      · rcases formula.mapM g with _ | inner <;> rfl

/-- Replacing notes adds to a record the notes from left to right, up to the first one that
    is rejected, and the record has no influence on the result. -/
theorem run_mapM_recorded (g : α → Option β) (formula : FirstOrder α) (record : List α) :
    (formula.mapM (recorded g)).run.run record =
      (formula.mapM g, record ++ asked g formula.notes) := by
  induction formula generalizing record with
  | atomic literal => exact congrArg _ (List.append_nil record).symm
  | negated formula ih =>
      rw [mapM, mapM, Recorder.run_bind, ih, notes]
      rcases formula.mapM g with _ | inner <;> rfl
  | connected left connective right ihl ihr =>
      rw [mapM, mapM, Recorder.run_bind, ihl, notes, asked_append, ← isSome_mapM]
      rcases left.mapM g with _ | l
      · rfl
      · simp only [Recorder.run_bind, ihr, Option.isSome_some, if_true, ← List.append_assoc]
        rcases right.mapM g with _ | r <;> rfl
  | quantified quantifier bound formula ih =>
      rw [mapM, mapM, Recorder.run_bind, run_mapM_entries, notes, asked_append,
        ← isSome_mapM_entries]
      rcases bound.mapM _ with _ | entries
      · rfl
      · simp only [Recorder.run_bind, ih, Option.isSome_some, if_true, ← List.append_assoc]
        rcases formula.mapM g with _ | inner <;> rfl

/-- Notes are taken from left to right, until one is rejected. -/
theorem trace_eq (g : α → Option β) (formula : FirstOrder α) :
    trace g formula = (formula.mapM g, asked g formula.notes) := by
  rw [trace, run_mapM_recorded, List.nil_append]

/-- A replacement without an effect is a function. -/
theorem mapM_pure {m : Type → Type} [Monad m] [LawfulMonad m] (f : α → β)
    (formula : FirstOrder α) :
    formula.mapM (fun a => (pure (f a) : m β)) = pure (formula.map f) := by
  induction formula with
  | atomic => rfl
  | negated _ ih => rw [mapM, map, ih, pure_bind]
  | connected _ _ _ ihl ihr => rw [mapM, map, ihl, ihr, pure_bind, pure_bind]
  | quantified quantifier bound formula ih =>
      simp only [mapM, map, ih, pure_bind, List.mapM_pure]

/-- A replacement that never fails is called for all notes. -/
theorem trace_some (f : α → β) (formula : FirstOrder α) :
    trace (fun a => some (f a)) formula = (some (formula.map f), formula.notes) := by
  rw [trace_eq, asked_some]
  exact congrArg (·, formula.notes) (mapM_pure f formula)

end FirstOrder

end Tptp
