/-!
# Closed Vocabularies

The closed sets of names that the language gives a meaning to: connectives,
roles, arithmetic functions, result codes.

A vocabulary lists its members in a fixed order and spells each of them in one
way. It is read in two manners. A text that is already known to be one name is
looked up whole; a name that has to be found at the start of a longer text is
tried longest first, so that a name which begins another one is never taken in
its place. That both agree rests on the spellings being different, which is a
field of the class.

Result codes have a second spelling, their name in the ontology of result
codes. `Ontology` adds it.

## Main definitions

* `Vocabulary`: The members of a closed set of names and their spelling.
* `Vocabulary.ofCanonical?`: The member with a given spelling.
* `Vocabulary.longestFirst`: Names in the order in which they are tried.
* `Vocabulary.nameTable`: The spellings with their members, longest first.
* `Ontology`: A vocabulary whose members have a second, longer name.

## Theorems

* `Vocabulary.canonical_inj`: Different members are spelled differently.
* `Vocabulary.ofCanonical?_canonical`: Looking a spelling up finds its member.
* `Vocabulary.ofCanonical?_eq_some_iff`: Only its own spelling finds a member.
* `Vocabulary.mem_nameTable`: The table holds every member with its spelling.
-/

namespace Tptp

/-- A closed set of names. -/
class Vocabulary (V : Type) where
  /-- What the set is called in error messages. -/
  title : String
  /-- The members, in the order of their declaration. -/
  members : List V
  /-- The spelling of a member. -/
  canonical : V → String
  /-- No member is missing from the list. -/
  mem_members : ∀ v, v ∈ members
  /-- No two members share a spelling, and none is listed twice. -/
  nodup_canonical : (members.map canonical).Nodup

namespace Vocabulary

/-- Puts a name in front of the first one that is not longer. -/
def insertName {V : Type} (entry : String × V) : List (String × V) → List (String × V)
  | [] => [entry]
  | next :: others =>
    if next.1.length ≤ entry.1.length then entry :: next :: others
    else next :: insertName entry others

/-- Sorts names, longest first; names of one length keep their order. -/
def longestFirst {V : Type} (names : List (String × V)) : List (String × V) :=
  names.foldr insertName []

/-- The names in a list with one more are that one and those of the list. -/
theorem mem_insertName {V : Type} {entry other : String × V} {names : List (String × V)} :
    other ∈ insertName entry names ↔ other = entry ∨ other ∈ names := by
  induction names with
  | nil => simp only [insertName, List.mem_singleton, List.not_mem_nil, or_false]
  | cons next others ih =>
      rw [insertName]
      split
      · simp only [List.mem_cons]
      · simp only [List.mem_cons, ih, or_left_comm]

/-- Sorting keeps the names. -/
theorem mem_longestFirst {V : Type} {entry : String × V} {names : List (String × V)} :
    entry ∈ longestFirst names ↔ entry ∈ names := by
  induction names with
  | nil => exact Iff.rfl
  | cons first others ih =>
      rw [longestFirst, List.foldr_cons, mem_insertName, List.mem_cons]
      exact or_congr_right ih

variable {V : Type} [Vocabulary V]

/-- The member spelled `text`, if there is one. -/
def ofCanonical? (text : String) : Option V :=
  (members (V := V)).find? fun v => canonical v = text

/-- The spellings with their members, longest first; spellings of one length
    keep the order of declaration. -/
def nameTable (V : Type) [Vocabulary V] : List (String × V) :=
  longestFirst ((members (V := V)).map fun v => (canonical v, v))

/-- A function that repeats no value on a list tells its elements apart. -/
private theorem eq_of_nodup_map {α β : Type} {f : α → β} {l : List α} (h : (l.map f).Nodup)
    {a b : α} (ha : a ∈ l) (hb : b ∈ l) (hab : f a = f b) : a = b := by
  induction l with
  | nil => cases ha
  | cons c rest ih =>
      simp only [List.map_cons, List.nodup_cons, List.mem_map, not_exists, not_and] at h
      rcases List.mem_cons.mp ha with hac | ha <;> rcases List.mem_cons.mp hb with hbc | hb
      · rw [hac, hbc]
      · exact absurd (hac ▸ hab.symm) (h.1 b hb)
      · exact absurd (hbc ▸ hab) (h.1 a ha)
      · exact ih h.2 ha hb

/-- Where no two elements share a value, the element with a value is found by it. -/
private theorem find?_eq_some_iff_of_nodup {α β : Type} [DecidableEq β] {f : α → β} {l : List α}
    (h : (l.map f).Nodup) {a : α} (ha : a ∈ l) {b : β} :
    (l.find? fun a => f a = b) = some a ↔ f a = b := by
  constructor
  · intro hfind
    simpa only [decide_eq_true_eq] using List.find?_some hfind
  · intro hab
    cases hfind : l.find? fun a => f a = b with
    -- The search cannot end without an element: `a` itself would do.
    | none =>
        have := List.find?_eq_none.mp hfind a ha
        simp only [hab, decide_true, not_true_eq_false] at this
    | some other =>
        have hother : f other = b := by
          simpa only [decide_eq_true_eq] using List.find?_some hfind
        rw [eq_of_nodup_map h (List.mem_of_find?_eq_some hfind) ha (hother.trans hab.symm)]

/-- Different members are spelled differently. -/
theorem canonical_inj {v w : V} (h : canonical v = canonical w) : v = w :=
  eq_of_nodup_map nodup_canonical (mem_members v) (mem_members w) h

/-- Only its own spelling finds a member. -/
theorem ofCanonical?_eq_some_iff {text : String} {v : V} :
    ofCanonical? text = some v ↔ canonical v = text :=
  find?_eq_some_iff_of_nodup nodup_canonical (mem_members v)

/-- Looking a spelling up finds its member. -/
theorem ofCanonical?_canonical (v : V) : ofCanonical? (canonical v) = some v :=
  ofCanonical?_eq_some_iff.mpr rfl

/-- The table holds every member with its spelling, and nothing else. -/
theorem mem_nameTable {text : String} {v : V} :
    (text, v) ∈ nameTable V ↔ canonical v = text := by
  simp only [nameTable, mem_longestFirst, List.mem_map, Prod.mk.injEq]
  constructor
  · rintro ⟨w, _, h, rfl⟩
    exact h
  · intro h
    exact ⟨v, mem_members v, h, rfl⟩

end Vocabulary

/-- A vocabulary of result codes: each member also has a name in the ontology of
    results. -/
class Ontology (V : Type) extends Vocabulary V where
  /-- The name of a member in the ontology. -/
  ontologyName : V → String
  /-- No two members share a name in the ontology. -/
  nodup_ontologyName : (members.map ontologyName).Nodup

namespace Ontology

variable {V : Type} [Ontology V]

/-- The member named `text` in the ontology, if there is one. -/
def ofOntologyName? (text : String) : Option V :=
  (Vocabulary.members (V := V)).find? fun v => ontologyName v = text

/-- Only its own name in the ontology finds a member. -/
theorem ofOntologyName?_eq_some_iff {text : String} {v : V} :
    ofOntologyName? text = some v ↔ ontologyName v = text :=
  Vocabulary.find?_eq_some_iff_of_nodup nodup_ontologyName (Vocabulary.mem_members v)

/-- The names in the ontology with their members, longest first; names of one
    length keep the order of declaration. -/
def ontologyTable (V : Type) [Ontology V] : List (String × V) :=
  Vocabulary.longestFirst ((Vocabulary.members (V := V)).map fun v => (ontologyName v, v))

end Ontology

end Tptp
