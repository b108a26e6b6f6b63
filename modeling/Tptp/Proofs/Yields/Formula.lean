import Tptp.Grammar.Formula
import Tptp.Proofs.Yields.Term

/-!
# Well-Formed Sorts and Formulas

The productions of sorts, types and formulas yield well-formed values.

The languages share the productions of formulas and differ in their dialect, so
these productions are treated once, for every dialect that keeps a property of
formulas. `Dialect.Keeps` lists what that takes: its binders have a property, and
building a formula from parts that have theirs is never refused.

## Main definitions

* `Dialect.Keeps`: A dialect builds formulas with a property.

## Theorems

* `yields_polySort`, `yields_signature`: Sorts and types.
* `yields_formulaOf`: Formulas of a dialect that keeps a property.
* `yields_formula`: Formulas of all languages.
-/

namespace Tptp

namespace Grammar

open Reading Parser

theorem yields_polySortRule {argument : Parser (PolySort SortName)}
    (h : Yields argument PolySort.WellFormed) :
    Yields (polySortRule argument) PolySort.WellFormed := by
  refine .labeled _ (.orElse (yields_var.map fun _ hv => .var hv) ?_)
  exact yields_sort.bind fun _ hname => h.arguments.bind fun _ hsorts =>
    .pure (.application hname hsorts)

theorem yields_polySort_and_argument (allowance : Nat) :
    Yields (polySort allowance) PolySort.WellFormed ∧
      Yields (polySortArgument allowance) PolySort.WellFormed := by
  induction allowance with
  | zero => exact ⟨.tooDeep, .tooDeep⟩
  | succ allowance ih => exact ⟨yields_polySortRule ih.2, ih.1.orParens ih.2⟩

theorem yields_polySort (allowance : Nat) : Yields (polySort allowance) PolySort.WellFormed :=
  (yields_polySort_and_argument allowance).1

theorem yields_polySortArgument (allowance : Nat) :
    Yields (polySortArgument allowance) PolySort.WellFormed :=
  (yields_polySort_and_argument allowance).2

theorem yields_mapping {α : Type} {W : α → Prop} {item : Parser α} (h : Yields item W) :
    Yields (mapping item) fun m => (∀ s ∈ m.1, W s) ∧ W m.2 := by
  have hsingle : Yields ((fun s => [s]) <$> item) (∀ s ∈ ·, W s) := by
    refine h.map fun s hs t ht => ?_
    rw [List.mem_singleton.mp ht]
    exact hs
  have hproduct : Yields (parens (sepBy1 item (operator "*"))) (∀ s ∈ ·, W s) :=
    ((h.sepBy1 (yields_operator _)).mono fun _ hs => hs.2).parens
  have harguments : Yields (mappingArguments item) (∀ s ∈ ·, W s) :=
    (hsingle.orElse hproduct).bind fun _ hs => (yields_operator _).bind fun _ _ => .pure hs
  refine (harguments.withDefault ?_).bind fun _ hs => h.bind fun _ hr => .pure ⟨hs, hr⟩
  intro s hs
  exact absurd hs List.not_mem_nil

theorem yields_kind : Yields kind fun _ => True :=
  (yields_token _).bind fun _ _ => .pure trivial

theorem yields_kindArgument (allowance : Nat) : Yields (kindArgument allowance) fun _ => True :=
  .optionalParens (fun _ => yields_kind) allowance

theorem yields_typeQuantifier (allowance : Nat) :
    Yields (typeQuantifier allowance) (∀ v ∈ ·, Var.WellFormed v) := by
  have hbound : Yields (boundSortVariable allowance) Var.WellFormed :=
    yields_var.bind fun _ hv => (yields_operator _).bind fun _ _ =>
      (yields_kindArgument allowance).bind fun _ _ => .pure hv
  exact (yields_token _).bind fun _ _ => hbound.bracketList1.bind fun _ hs =>
    (yields_operator _).bind fun _ _ => .pure hs.2

/-- The name of a plain sort is well-formed if the sort is. -/
theorem wellFormed_of_plain? {sort : PolySort SortName} {name : SortName}
    (h : sort.plain? = some name) (hsort : sort.WellFormed) : name.WellFormed := by
  rw [PolySort.eq_of_plain?_eq_some h] at hsort
  cases hsort with
  | application hname _ => exact hname

/-- A type is put down in the general form only if it has no plain one. -/
theorem wellFormed_ofSorts {bound : List Var} {sorts : List (PolySort SortName)}
    {result : PolySort SortName} (hbound : ∀ v ∈ bound, v.WellFormed)
    (hsorts : ∀ s ∈ sorts, s.WellFormed) (hresult : result.WellFormed) :
    (Signature.ofSorts bound sorts result).WellFormed := by
  rcases bound with _ | ⟨v, bound⟩
  · rcases hnames : sorts.mapM PolySort.plain? with _ | names
    · rcases mapM_eq_none hnames with ⟨s, hs, hnone⟩
      simp only [Signature.ofSorts, hnames]
      refine ⟨hbound, hsorts, hresult, .inr ⟨s, List.mem_cons_of_mem _ hs, ?_⟩⟩
      exact (s.plain?_eq_none_iff).mp hnone
    · rcases hname : result.plain? with _ | name
      · simp only [Signature.ofSorts, hnames, hname]
        refine ⟨hbound, hsorts, hresult, .inr ⟨result, List.mem_cons_self, ?_⟩⟩
        exact (result.plain?_eq_none_iff).mp hname
      · simp only [Signature.ofSorts, hnames, hname]
        refine ⟨fun n hn => ?_, wellFormed_of_plain? hname hresult⟩
        rcases mem_of_mapM hnames hn with ⟨s, hs, hplain⟩
        exact wellFormed_of_plain? hplain (hsorts s hs)
  · exact ⟨hbound, hsorts, hresult, .inl (List.cons_ne_nil _ _)⟩

theorem yields_signature (allowance : Nat) : Yields (signature allowance) Signature.WellFormed := by
  have hbound := (yields_typeQuantifier allowance).withDefault (a := []) fun v hv =>
    absurd hv List.not_mem_nil
  have hmapping := Yields.optionalParens
    (p := fun allowance => mapping (polySortArgument allowance))
    (fun n => yields_mapping (yields_polySortArgument n)) allowance
  refine .labeled _ (hbound.bind fun bound hbound => hmapping.bind fun m hm => ?_)
  exact .pure (wellFormed_ofSorts hbound hm.1 hm.2)

section

variable {F B : Type}

/-- A dialect that builds formulas with the property `W` from binders with the
    property `U`. -/
structure Dialect.Keeps (dialect : Dialect F B) (W : F → Prop) (U : B → Prop) : Prop where
  binder : ∀ allowance, Yields (dialect.binder allowance) U
  atomic : ∀ {l : Literal}, l.WellFormed → W (dialect.atomic l)
  negated : ∀ {f : F}, W f → W (dialect.negated f)
  connected : ∀ {f g : F} (c : Connective), W f → W g → W (dialect.connected f c g)
  quantified : ∀ {bound : List B} {f : F} (q : Quantifier), Many1 U bound → W f →
    ∃ g, dialect.quantified q bound f = .ok g ∧ W g
  modal : ∀ apply ∈ dialect.modal, ∀ {f : F} (m : Modality), W f → W (apply m f)

variable {dialect : Dialect F B} {W : F → Prop} {U : B → Prop}

/-- Grouping a chain keeps the property. -/
theorem Dialect.Keeps.groupRight (h : dialect.Keeps W U) {first : F}
    {others : List (Connective × F)} (hfirst : W first) (hothers : ∀ o ∈ others, W o.2) :
    W (dialect.groupRight first others) := by
  induction others generalizing first with
  | nil => exact hfirst
  | cons next others ih =>
      refine h.connected next.1 hfirst (ih (hothers next List.mem_cons_self) fun o ho => ?_)
      exact hothers o (List.mem_cons_of_mem _ ho)

theorem yields_chain (h : dialect.Keeps W U) {unitary : Parser F} (hu : Yields unitary W) :
    Yields (chain dialect unitary) W := by
  have hconnection : Yields (connection unitary) fun o => W o.2 :=
    ((yields_member Connective).labeled "connective").bind fun _ _ => hu.bind fun _ hf => .pure hf
  exact hu.bind fun _ hfirst => hconnection.many.bind fun _ hothers =>
    .pure (h.groupRight hfirst hothers)

/-- A unitary formula is what its first character says. -/
theorem yields_unitaryRule (h : dialect.Keeps W U) {allowance : Nat} {inner : Parser F}
    (hi : Yields inner W) : Yields (unitaryRule dialect allowance inner) W := by
  have hnegation : Yields (negation dialect inner) W :=
    (yields_operator _).bind fun _ _ => hi.bind fun _ hf => .pure (h.negated hf)
  have hquantification : Yields (quantification dialect allowance inner) W :=
    ((yields_member Quantifier).labeled "quantifier").bind fun q _ =>
      (h.binder allowance).bracketList1.bind fun _ hbound => (yields_operator _).bind fun _ _ =>
        hi.bind fun _ hf => yields_build (h.quantified q hbound hf)
  have hbasic : Yields (basicFormula dialect allowance inner) W :=
    ((yields_literal allowance).map fun _ hl => h.atomic hl).orParens (yields_chain h hi)
  refine .labeled _ (.ifOpens _ hnegation (.ifOpens _ hquantification
    (.ifOpens _ hquantification ?_)))
  split
  · next apply happly =>
      refine .ifOpens _ ?_ hbasic
      exact ((yields_member Modality).labeled "modality").bind fun m _ =>
        (yields_operator _).bind fun _ _ => hi.bind fun _ hf => .pure (h.modal apply happly m hf)
  · exact hbasic

theorem yields_unitary (h : dialect.Keeps W U) (allowance : Nat) :
    Yields (unitary dialect allowance) W := by
  induction allowance with
  | zero => exact .tooDeep
  | succ allowance ih => exact yields_unitaryRule h ih

theorem yields_formulaOf (h : dialect.Keeps W U) (allowance : Nat) :
    Yields (formulaOf dialect allowance) W :=
  yields_chain h (yields_unitary h allowance)

end

/-- A first-order dialect keeps formulas well-formed if its notes are. -/
theorem keeps_firstOrder {α : Type} {note : Nat → Parser α} {N : α → Prop}
    (hnote : ∀ allowance, Yields (note allowance) N) :
    (firstOrder note).Keeps (FirstOrder.WellFormed N) fun b => b.1.WellFormed ∧ N b.2 where
  binder allowance := yields_var.bind fun _ hv => (hnote allowance).bind fun _ hn => .pure ⟨hv, hn⟩
  atomic h := h
  negated h := h
  connected _ hf hg := ⟨hf, hg⟩
  quantified {bound f} q hbound hf := by
    refine ⟨.quantified q bound f, ?_, hbound.1, hbound.2, hf⟩
    change FirstOrder.quantify q bound f = _
    rw [FirstOrder.quantify, List.isEmpty_eq_false_iff.mpr hbound.1, if_neg Bool.false_ne_true]
  modal apply happly := absurd happly (Option.not_mem_none apply)

/-- The modal dialect keeps formulas well-formed. -/
theorem keeps_modalLogic : modalLogic.Keeps ModalFormula.WellFormed Var.WellFormed where
  binder _ := yields_var
  atomic h := h
  negated h := h
  connected _ hf hg := ⟨hf, hg⟩
  quantified {bound f} q hbound hf := by
    refine ⟨.quantified q bound f, ?_, hbound.1, hbound.2, hf⟩
    change ModalFormula.quantify q bound f = _
    rw [ModalFormula.quantify, List.isEmpty_eq_false_iff.mpr hbound.1, if_neg Bool.false_ne_true]
  modal apply happly {f} m hf := by
    rw [← Option.some.inj happly]
    exact hf

theorem yields_unsortedFormula (allowance : Nat) :
    Yields (unsortedFormula allowance) (FirstOrder.WellFormed fun _ => True) :=
  (yields_formulaOf (keeps_firstOrder fun _ => .pure trivial) allowance).labeled _

/-- A note is well-formed if the sort it gives is. -/
theorem yields_sortedNote {α : Type} {sort : Nat → Parser α} {S : α → Prop}
    (h : ∀ allowance, Yields (sort allowance) S) (allowance : Nat) :
    Yields (sortedNote sort allowance) (Sorted.WellFormed S) := by
  have hgiven : Yields (givenSort sort allowance) S :=
    (yields_operator _).bind fun _ _ => .optionalParens h allowance
  exact .labeled _ (hgiven.optional.map fun _ hs => hs)

theorem yields_plainSort (allowance : Nat) : Yields (plainSort allowance) Name.WellFormed := by
  cases allowance with
  | zero => exact .tooDeep
  | succ => exact yields_sort

theorem yields_monoFormula (allowance : Nat) :
    Yields (monoFormula allowance) (FirstOrder.WellFormed (Sorted.WellFormed Name.WellFormed)) :=
  (yields_formulaOf (keeps_firstOrder (yields_sortedNote yields_plainSort)) allowance).labeled _

theorem yields_polyRange (allowance : Nat) : Yields (polyRange allowance) PolyRange.WellFormed :=
  (yields_kind.map fun _ _ => trivial).orElse ((yields_polySort allowance).map fun _ h => h)

theorem yields_polyFormula (allowance : Nat) :
    Yields (polyFormula allowance)
      (FirstOrder.WellFormed (Sorted.WellFormed PolyRange.WellFormed)) :=
  (yields_formulaOf (keeps_firstOrder (yields_sortedNote yields_polyRange)) allowance).labeled _

theorem yields_modalFormula (allowance : Nat) :
    Yields (modalFormula allowance) ModalFormula.WellFormed :=
  yields_formulaOf keeps_modalLogic allowance

/-- Replacing notes keeps a formula well-formed if it does so for the notes. -/
theorem wellFormed_of_mapM {α β : Type} {f : α → Option β} {N : α → Prop} {M : β → Prop}
    (hN : ∀ {a b}, f a = some b → N a → M b) {formula : FirstOrder α} {out : FirstOrder β}
    (h : formula.mapM f = some out) (hformula : formula.WellFormed N) : out.WellFormed M := by
  induction formula generalizing out with
  | atomic l =>
      rw [← Option.some.inj h]
      exact hformula
  | negated g ih =>
      simp only [FirstOrder.mapM, Option.bind_eq_bind, Option.bind_eq_some_iff, Option.pure_def,
        Option.some.injEq] at h
      rcases h with ⟨g', hg, rfl⟩
      change g'.WellFormed M
      exact ih hg hformula
  | connected left c right ihl ihr =>
      simp only [FirstOrder.mapM, Option.bind_eq_bind, Option.bind_eq_some_iff, Option.pure_def,
        Option.some.injEq] at h
      rcases h with ⟨left', hleft, right', hright, rfl⟩
      exact ⟨ihl hleft hformula.1, ihr hright hformula.2⟩
  | quantified q bound g ih =>
      simp only [FirstOrder.mapM, Option.bind_eq_bind, Option.bind_eq_some_iff, Option.pure_def,
        Option.some.injEq] at h
      rcases h with ⟨bound', hbound, g', hg, rfl⟩
      refine ⟨mapM_ne_nil hbound hformula.1, fun b hb => ?_, ih hg hformula.2.2⟩
      rcases mem_of_mapM hbound hb with ⟨⟨v, a⟩, ha, hab⟩
      simp only [Option.bind_eq_some_iff, Option.some.injEq] at hab
      rcases hab with ⟨b', hb', rfl⟩
      have hva := hformula.2.1 (v, a) ha
      exact ⟨hva.1, hN hb' hva.2⟩

/-- A note that has a monomorphic form has a well-formed one. -/
theorem wellFormed_of_toMono? {note : Sorted (PolyRange SortName)} {mono : Sorted SortName}
    (h : note.toMono? = some mono) (hnote : note.WellFormed PolyRange.WellFormed) :
    mono.WellFormed Name.WellFormed := by
  intro name hname
  rcases note with ⟨_ | _ | sort⟩
  · rw [← Option.some.inj h] at hname
    exact absurd hname (Option.not_mem_none name)
  · exact absurd h (by simp only [Sorted.toMono?, reduceCtorEq, not_false_eq_true])
  · simp only [Sorted.toMono?, Option.map_eq_some_iff] at h
    rcases h with ⟨plain, hplain, rfl⟩
    rw [← Option.some.inj hname]
    exact wellFormed_of_plain? hplain (hnote _ rfl)

/-- A polymorphic formula is kept as one only if it has no monomorphic form. -/
theorem wellFormed_ofPoly {f : PolyFormula}
    (h : f.WellFormed (Sorted.WellFormed PolyRange.WellFormed)) :
    (Formula.ofPoly f).WellFormed := by
  rw [Formula.ofPoly]
  split
  · next mono hmono => exact wellFormed_of_mapM wellFormed_of_toMono? hmono h
  · next hnone => exact ⟨h, hnone⟩

theorem yields_formula (language : Language) (allowance : Nat) :
    Yields (formula language allowance) Formula.WellFormed := by
  cases language with
  | cnf => exact .labeled _ ((yields_clause allowance).map fun _ h => h)
  | fof => exact .labeled _ ((yields_unsortedFormula allowance).map fun _ h => h)
  | tff => exact .labeled _ ((yields_polyFormula allowance).map fun _ h => wellFormed_ofPoly h)
  | qmf => exact .labeled _ ((yields_modalFormula allowance).map fun _ h => h)

end Grammar

end Tptp
