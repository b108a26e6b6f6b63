import Tptp.Proofs.Syntax.SignatureReading
import Tptp.Proofs.Traversal

/-!
# What a Type Says

Types are equal as values exactly if they say the same.

A type is put down over plain sorts if it can be, and over general sorts otherwise. From either
form the variables, the argument sorts and the result sort can be taken back (`Signature.parts`),
so nothing is lost and nothing is said in two forms.

With that, what a text says is settled by its value. A text says variables and sorts if it is
one of the texts of that type, whatever layout and redundant parentheses it has. A text that is
read says something, since types are read from their texts alone, and it says one thing only,
since each of its readings as such a text has the one value.

## Main definitions

* `Signature.parts`: What a type was made from.
* `Denotes`: What a text says, as a type.

## Theorems

* `Signature.ofSorts_eq_mono_iff`, `Signature.ofSorts_cases`: The form of a type.
* `Signature.ofSorts_inj`: No two types are merged.
* `exists_denotes`, `Denotes.eq_ofSorts`: What is read is what the text says.
* `signature_canonical`: Values and what they say.
-/

namespace Tptp

section

variable {ν : Type}

theorem PolySort.plain?_eq_some_iff {sort : PolySort ν} {name : ν} :
    sort.plain? = some name ↔ sort = .application name [] := by
  constructor
  · exact PolySort.eq_of_plain?_eq_some
  · rintro rfl
    rfl

/-- The names of plain sorts are all there is to them. -/
theorem mapM_plain?_eq_some_iff {sorts : List (PolySort ν)} {names : List ν} :
    sorts.mapM PolySort.plain? = some names ↔
      sorts = names.map fun name => .application name [] := by
  induction sorts generalizing names with
  | nil =>
      rw [List.mapM_nil, Option.pure_def, Option.some.injEq, eq_comm, eq_comm (a := [])]
      exact List.map_eq_nil_iff.symm
  | cons first others ih =>
      simp only [List.mapM_cons, Option.bind_eq_bind, Option.bind_eq_some_iff, Option.pure_def,
        Option.some.injEq, PolySort.plain?_eq_some_iff, ih]
      constructor
      · rintro ⟨name, rfl, names, rfl, rfl⟩
        rfl
      · intro h
        rcases List.map_eq_cons_iff.mp h.symm with ⟨name, names, rfl, hfirst, hothers⟩
        exact ⟨name, hfirst.symm, names, hothers.symm, rfl⟩

/-- Plain sorts are given by names. -/
theorem exists_names_iff {sorts : List (PolySort ν)} :
    (∃ names : List ν, sorts = names.map fun name => .application name []) ↔
      ∀ sort ∈ sorts, sort.IsPlain := by
  constructor
  · rintro ⟨names, rfl⟩ sort hsort
    rcases List.mem_map.mp hsort with ⟨name, -, rfl⟩
    exact ⟨name, rfl⟩
  · intro h
    rcases hnames : sorts.mapM PolySort.plain? with _ | names
    · rcases mapM_eq_none hnames with ⟨sort, hsort, hnone⟩
      exact absurd (h sort hsort) (sort.plain?_eq_none_iff.mp hnone)
    · exact ⟨names, mapM_plain?_eq_some_iff.mp hnames⟩

end

namespace Signature

variable {bound : List Var} {sorts : List (PolySort SortName)} {result : PolySort SortName}

/-- What a type was made from: the variables it binds, the argument sorts and the result. -/
def parts : Signature → List Var × List (PolySort SortName) × PolySort SortName
  | .mono names name => ([], names.map fun name => .application name [], .application name [])
  | .poly bound sorts result => (bound, sorts, result)

/-- A type is put down over plain sorts exactly if it binds nothing and all its sorts are
    plain. -/
theorem ofSorts_eq_mono_iff {names : List SortName} {name : SortName} :
    ofSorts bound sorts result = .mono names name ↔
      bound = [] ∧ (sorts = names.map fun name => .application name []) ∧
        result = .application name [] := by
  rw [← mapM_plain?_eq_some_iff, ← PolySort.plain?_eq_some_iff]
  unfold ofSorts
  split
  · next hsorts hresult =>
      rw [hsorts, hresult, mono.injEq, Option.some.injEq, Option.some.injEq, eq_self, true_and]
  · next hnot =>
      refine iff_of_false nofun ?_
      rintro ⟨rfl, hsorts, hresult⟩
      exact hnot _ _ rfl hsorts hresult

/-- A type that is not put down so has exactly what it was made from. -/
theorem ofSorts_cases (bound : List Var) (sorts : List (PolySort SortName))
    (result : PolySort SortName) :
    (∃ names name, ofSorts bound sorts result = .mono names name) ∨
      ofSorts bound sorts result = .poly bound sorts result := by
  unfold ofSorts
  split
  · exact .inl ⟨_, _, rfl⟩
  · exact .inr rfl

/-- Nothing is lost. -/
theorem parts_ofSorts : (ofSorts bound sorts result).parts = (bound, sorts, result) := by
  rcases ofSorts_cases bound sorts result with ⟨names, name, h⟩ | h
  · rcases ofSorts_eq_mono_iff.mp h with ⟨rfl, rfl, rfl⟩
    rw [h, parts]
  · rw [h, parts]

/-- No two types are merged. -/
theorem ofSorts_inj {bound' : List Var} {sorts' : List (PolySort SortName)}
    {result' : PolySort SortName} :
    ofSorts bound sorts result = ofSorts bound' sorts' result' ↔
      bound = bound' ∧ sorts = sorts' ∧ result = result' := by
  constructor
  · intro h
    have hparts := congrArg parts h
    rw [parts_ofSorts, parts_ofSorts, Prod.mk.injEq, Prod.mk.injEq] at hparts
    exact hparts
  · rintro ⟨rfl, rfl, rfl⟩
    rfl

end Signature

namespace Syntax

open Reading

/-- A text says these variables and sorts: it is a text of that type, with layout in front. -/
def Denotes (text : String) (bound : List Var) (sorts : List (PolySort SortName))
    (result : PolySort SortName) : Prop :=
  ∃ start depth, Skips text.toList start ∧ WritesType depth start bound sorts result []

variable {text : String} {type : Signature} {bound : List Var} {sorts : List (PolySort SortName)}
  {result : PolySort SortName}

/-- A text that is read says what the value was made from. -/
theorem exists_denotes (h : Read.signature text = .ok type) :
    ∃ bound sorts result, type = .ofSorts bound sorts result ∧ Denotes text bound sorts result := by
  rcases read_ok_iff.mp h with ⟨after, hdone, hnil⟩
  have hrelates := relates_skipLayout.bind fun _ => relates_signature nestingAllowance
  rcases hrelates.sound hdone with ⟨left, rfl, _, start, ⟨hskips, -⟩, bound, sorts, result, htype,
    hwrites⟩
  rw [Rest.chars_ofList] at hnil
  exact ⟨bound, sorts, result, htype, start, _, hskips, hnil ▸ hwrites⟩

/-- What a text says makes the value that is read. -/
theorem Denotes.eq_ofSorts (hdenotes : Denotes text bound sorts result)
    (h : Read.signature text = .ok type) : type = .ofSorts bound sorts result := by
  rcases hdenotes with ⟨start, depth, hskips, hwrites⟩
  have hread := signature_ok_of_writes hskips hwrites (.inr (h ▸ nofun))
  exact Except.ok.inj (h.symm.trans hread)

/-- Types are equal exactly if they were made from the same variables, argument sorts and result
    sort. A type is put down over plain sorts exactly if it binds nothing and has only plain
    sorts, with their names in order, and otherwise it has just what it was made from. So each
    text that is read as a type says one thing, and two of them say the same exactly if their
    values are equal. -/
theorem signature_canonical :
    (∀ bound bound' sorts sorts' result result',
      Signature.ofSorts bound sorts result = .ofSorts bound' sorts' result' ↔
        bound = bound' ∧ sorts = sorts' ∧ result = result') ∧
    (∀ bound sorts result,
      ((∃ names name, Signature.ofSorts bound sorts result = .mono names name) ↔
        bound = [] ∧ (∀ sort ∈ sorts, sort.IsPlain) ∧ result.IsPlain) ∧
      (∀ names name, Signature.ofSorts bound sorts result = .mono names name ↔
        bound = [] ∧ (sorts = names.map fun name => .application name []) ∧
          result = .application name []) ∧
      ((∀ names name, Signature.ofSorts bound sorts result ≠ .mono names name) →
        Signature.ofSorts bound sorts result = .poly bound sorts result)) ∧
    ∀ text text' type type', Read.signature text = .ok type → Read.signature text' = .ok type' →
      (∃ bound sorts result, type = .ofSorts bound sorts result ∧
        ∀ bound' sorts' result', Denotes text bound' sorts' result' ↔
          bound' = bound ∧ sorts' = sorts ∧ result' = result) ∧
      ((∃ bound sorts result, Denotes text bound sorts result ∧ Denotes text' bound sorts result) ↔
        type = type') := by
  refine ⟨fun _ _ _ _ _ _ => Signature.ofSorts_inj, fun bound sorts result =>
    ⟨?_, fun _ _ => Signature.ofSorts_eq_mono_iff, fun hne => ?_⟩, ?_⟩
  · simp only [Signature.ofSorts_eq_mono_iff, exists_and_left, exists_and_right,
      exists_names_iff]
    exact Iff.rfl
  · rcases Signature.ofSorts_cases bound sorts result with ⟨names, name, h⟩ | h
    · exact absurd h (hne names name)
    · exact h
  · intro text text' type type' h h'
    rcases exists_denotes h with ⟨bound, sorts, result, rfl, hdenotes⟩
    rcases exists_denotes h' with ⟨bound', sorts', result', rfl, hdenotes'⟩
    refine ⟨⟨bound, sorts, result, rfl, fun _ _ _ => ⟨fun hother => ?_, ?_⟩⟩, ?_, fun hsame => ?_⟩
    · rcases Signature.ofSorts_inj.mp (hother.eq_ofSorts h) with ⟨rfl, rfl, rfl⟩
      exact ⟨rfl, rfl, rfl⟩
    · rintro ⟨rfl, rfl, rfl⟩
      exact hdenotes
    · rintro ⟨_, _, _, hboth, hboth'⟩
      exact (hboth.eq_ofSorts h).trans (hboth'.eq_ofSorts h').symm
    · rcases Signature.ofSorts_inj.mp hsame with ⟨rfl, rfl, rfl⟩
      exact ⟨bound, sorts, result, hdenotes, hdenotes'⟩

/-- Parentheses around an argument sort, and around the mapping, change nothing in what a text
    says. -/
theorem signature_canonical_of_parens :
    ∃ type type', Read.signature "($i) > $o" = .ok type ∧
      Read.signature "($i > $o)" = .ok type' ∧
      (type = type' ↔ ∃ bound sorts result, Denotes "($i) > $o" bound sorts result ∧
        Denotes "($i > $o)" bound sorts result) := by
  rcases exists_ok_of_isOk (Read.signature "($i) > $o") (by decide +kernel) with ⟨type, h⟩
  rcases exists_ok_of_isOk (Read.signature "($i > $o)") (by decide +kernel) with ⟨type', h'⟩
  exact ⟨type, type', h, h', (signature_canonical.2.2 _ _ _ _ h h').2.symm⟩

end Syntax

end Tptp
