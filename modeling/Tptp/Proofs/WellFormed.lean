import Tptp.Document
import Tptp.Proofs.Traversal

/-!
# Well-Formed Values

What is true of every node of a value that was read from a text.

The types of the library rule much out by themselves: a standard word belongs to
the vocabulary of its place, since the place carries its vocabulary in the type,
and the arity of a sort is a natural number. What the types leave open is written
down here, one predicate for each type. A value is well-formed if its own
condition holds and all values inside of it are well-formed.

Where a type nests lists of itself, the predicate is an inductive one, with one
rule for each shape; elsewhere it is defined by cases.

## Main definitions

* `Atom.WellFormed`, `Var.WellFormed`, `DistinctObject.WellFormed`: Names consist of
  the characters their kind admits.
* `Reserved.WellFormed`, `Name.WellFormed`: An extended word is a lower word that
  the vocabulary of its place does not have.
* `Number.WellFormed`: Denominators are positive, and no real is an integer.
* `Term.WellFormed`, `Literal.WellFormed`, `Clause.WellFormed`: Clauses are not empty.
* `PolySort.WellFormed`, `Signature.WellFormed`: A general type needs to be one.
* `FirstOrder.WellFormed`, `ModalFormula.WellFormed`: Every quantifier binds.
* `Formula.WellFormed`: A polymorphic formula has no monomorphic form.
* `Info.WellFormed`, `Source.WellFormed`, `Provenance.WellFormed`: Assumptions name
  a unit.
* `Entry.WellFormed`, `Problem.WellFormed`, `Transcript.WellFormed`: Documents.
-/

namespace Tptp

/-- The name is printable and not empty. -/
def Atom.WellFormed (a : Atom) : Prop :=
  Atom.isValid a.text = true

/-- The name is a word that starts with an upper case letter. -/
def Var.WellFormed (v : Var) : Prop :=
  Var.isValid v.text = true

/-- The name is printable. -/
def DistinctObject.WellFormed (d : DistinctObject) : Prop :=
  DistinctObject.isValid d.text = true

section

variable {V : Type} [Vocabulary V]

/-- An extended word starts with a lower case letter, and no member of the
    vocabulary is spelled like it. -/
def Reserved.WellFormed : Reserved V → Prop
  | .standard _ => True
  | .extended text => Reserved.isValid text = true ∧ ∀ v : V, Vocabulary.canonical v ≠ text

/-- The reserved word or the atom is well-formed. -/
def Name.WellFormed : Name V → Prop
  | .reserved word => word.WellFormed
  | .user a => a.WellFormed

end

/-- A denominator is positive, and the last digit of a real number does not stand
    for ones. -/
def Number.WellFormed : Number → Prop
  | .integer _ => True
  | .rational _ denominator => 0 < denominator
  | .real value => value.exponent ≠ 0

/-- The names and the numbers in a term are well-formed. -/
inductive Term.WellFormed : Term → Prop where
  | function {name : FunctionName} {arguments : List Term} (hname : name.WellFormed)
      (harguments : ∀ t ∈ arguments, t.WellFormed) : WellFormed (.function name arguments)
  | var {v : Var} (h : v.WellFormed) : WellFormed (.var v)
  | number {n : Number} (h : n.WellFormed) : WellFormed (.number n)
  | distinct {d : DistinctObject} (h : d.WellFormed) : WellFormed (.distinct d)

/-- The terms in a literal are well-formed. -/
def Literal.WellFormed : Literal → Prop
  | .predicate name arguments => name.WellFormed ∧ ∀ t ∈ arguments, t.WellFormed
  | .equality left _ right => left.WellFormed ∧ right.WellFormed

/-- A clause has a literal, and its literals are well-formed. -/
def Clause.WellFormed (clause : Clause) : Prop :=
  clause.literals ≠ [] ∧ ∀ l ∈ clause.literals, l.literal.WellFormed

/-- The names in a sort are well-formed. -/
inductive PolySort.WellFormed : PolySort SortName → Prop where
  | var {v : Var} (h : v.WellFormed) : WellFormed (.var v)
  | application {name : SortName} {arguments : List (PolySort SortName)} (hname : name.WellFormed)
      (harguments : ∀ s ∈ arguments, s.WellFormed) : WellFormed (.application name arguments)

/-- A type over general sorts binds a variable or has a sort that is not plain. -/
def Signature.WellFormed : Signature → Prop
  | .mono arguments result => (∀ s ∈ arguments, Name.WellFormed s) ∧ Name.WellFormed result
  | .poly bound arguments result =>
    (∀ v ∈ bound, v.WellFormed) ∧ (∀ s ∈ arguments, s.WellFormed) ∧ result.WellFormed ∧
      (bound ≠ [] ∨ ∃ s ∈ result :: arguments, ¬ s.IsPlain)

/-- A sort that is given is well-formed. -/
def Sorted.WellFormed {σ : Type} (S : σ → Prop) (note : Sorted σ) : Prop :=
  ∀ s ∈ note.sort, S s

/-- A sort whose members are ranged over is well-formed. -/
def PolyRange.WellFormed : PolyRange SortName → Prop
  | .sorts => True
  | .members sort => sort.WellFormed

/-- Every quantifier binds a variable, and what stands in the formula is
    well-formed, the notes in the sense of `N`. -/
def FirstOrder.WellFormed {α : Type} (N : α → Prop) : FirstOrder α → Prop
  | .atomic literal => literal.WellFormed
  | .negated formula => formula.WellFormed N
  | .connected left _ right => left.WellFormed N ∧ right.WellFormed N
  | .quantified _ bound formula =>
    bound ≠ [] ∧ (∀ b ∈ bound, b.1.WellFormed ∧ N b.2) ∧ formula.WellFormed N

/-- Every quantifier binds a variable, and what stands in the formula is
    well-formed. -/
def ModalFormula.WellFormed : ModalFormula → Prop
  | .atomic literal => literal.WellFormed
  | .negated formula => formula.WellFormed
  | .connected left _ right => left.WellFormed ∧ right.WellFormed
  | .quantified _ bound formula => bound ≠ [] ∧ (∀ v ∈ bound, v.WellFormed) ∧ formula.WellFormed
  | .modal _ formula => formula.WellFormed

/-- The formula is well-formed in its language, and polymorphic only if it has to
    be. -/
def Formula.WellFormed : Formula → Prop
  | .cnf clause => clause.WellFormed
  | .fof formula => formula.WellFormed fun _ => True
  | .tff0 formula => formula.WellFormed (Sorted.WellFormed Name.WellFormed)
  | .tff1 formula =>
    formula.WellFormed (Sorted.WellFormed PolyRange.WellFormed) ∧ formula.toMono? = none
  | .qmf formula => formula.WellFormed

/-- The atom of a unit that is named by one is well-formed. -/
def UnitName.WellFormed : UnitName → Prop
  | .atom a => a.WellFormed
  | .number _ => True

/-- What is quoted is well-formed. -/
def Expression.WellFormed : Expression → Prop
  | .formula f => f.WellFormed
  | .term t => t.WellFormed

/-- The name of the symbol is well-formed. -/
def Symbol.WellFormed : Symbol → Prop
  | .var v => v.WellFormed
  | .atom a => a.WellFormed

/-- Assumptions name a unit, and what stands in a piece of information is
    well-formed. -/
inductive Info.WellFormed : Info → Prop where
  | description {text : Atom} (h : text.WellFormed) : WellFormed (.description text)
  | iquote {text : Atom} (h : text.WellFormed) : WellFormed (.iquote text)
  | status {status : Reserved Success} (h : status.WellFormed) : WellFormed (.status status)
  | assumptions {names : List UnitName} (hne : names ≠ []) (h : ∀ n ∈ names, n.WellFormed) :
      WellFormed (.assumptions names)
  | newSymbols {name : Atom} {symbols : List Symbol} (hname : name.WellFormed)
      (hsymbols : ∀ s ∈ symbols, s.WellFormed) : WellFormed (.newSymbols name symbols)
  | refutation {name : Atom} (h : name.WellFormed) : WellFormed (.refutation name)
  | expression {e : Expression} (h : e.WellFormed) : WellFormed (.expression e)
  | bind {v : Var} {e : Expression} (hv : v.WellFormed) (he : e.WellFormed) :
      WellFormed (.bind v e)
  | application {name : Atom} {infos : List Info} (hname : name.WellFormed)
      (hinfos : ∀ i ∈ infos, i.WellFormed) : WellFormed (.application name infos)
  | number {n : Number} (h : n.WellFormed) : WellFormed (.number n)
  | infos {infos : List Info} (h : ∀ i ∈ infos, i.WellFormed) : WellFormed (.infos infos)

/-- Every piece of information in a list is well-formed. -/
def InfosWellFormed (infos : List Info) : Prop :=
  ∀ i ∈ infos, i.WellFormed

mutual

/-- What stands in a source is well-formed. -/
inductive Source.WellFormed : Source → Prop where
  | unknown : Source.WellFormed .unknown
  | unit {name : UnitName} (h : name.WellFormed) : Source.WellFormed (.unit name)
  | file {name : Atom} {unit : Option UnitName} (hname : name.WellFormed)
      (hunit : ∀ u ∈ unit, u.WellFormed) : Source.WellFormed (.file name unit)
  | theory {name : Atom} {infos : Option (List Info)} (hname : name.WellFormed)
      (hinfos : ∀ list ∈ infos, InfosWellFormed list) : Source.WellFormed (.theory name infos)
  | creator {name : Atom} {infos : Option (List Info)} (hname : name.WellFormed)
      (hinfos : ∀ list ∈ infos, InfosWellFormed list) : Source.WellFormed (.creator name infos)
  | introduced {intro : Reserved Intro} {infos : Option (List Info)} (hintro : intro.WellFormed)
      (hinfos : ∀ list ∈ infos, InfosWellFormed list) : Source.WellFormed (.introduced intro infos)
  | inference {rule : Atom} {infos : List Info} {parents : List Parent} (hrule : rule.WellFormed)
      (hinfos : InfosWellFormed infos) (hparents : ∀ p ∈ parents, p.WellFormed) :
      Source.WellFormed (.inference rule infos parents)

/-- What stands in a parent is well-formed. -/
inductive Parent.WellFormed : Parent → Prop where
  | of {source : Source} {infos : List Info} (hsource : source.WellFormed)
      (hinfos : InfosWellFormed infos) : Parent.WellFormed (.of source infos)

end

/-- The source and the information are well-formed. -/
def Provenance.WellFormed (provenance : Provenance) : Prop :=
  provenance.source.WellFormed ∧ ∀ list ∈ provenance.infos, InfosWellFormed list

/-- What is declared is well-formed. -/
def Declaration.WellFormed : Declaration → Prop
  | .sort name _ => name.WellFormed
  | .typing name signature => name.WellFormed ∧ signature.WellFormed
  | .formula role statement => role.WellFormed ∧ statement.WellFormed

/-- All parts of the unit are well-formed. -/
def AnnotatedUnit.WellFormed (unit : AnnotatedUnit) : Prop :=
  unit.name.WellFormed ∧ unit.declaration.WellFormed ∧
    ∀ provenance ∈ unit.provenance, provenance.WellFormed

/-- A selection is not empty, and what is named is well-formed. -/
def Include.WellFormed (inclusion : Include) : Prop :=
  inclusion.file.WellFormed ∧
    ∀ names ∈ inclusion.selection, names ≠ [] ∧ ∀ n ∈ names, n.WellFormed

/-- The inclusion or the unit is well-formed. -/
def Entry.WellFormed : Entry → Prop
  | .inclusion i => i.WellFormed
  | .unit u => u.WellFormed

/-- Every entry is well-formed. -/
def Problem.WellFormed (problem : Problem) : Prop :=
  ∀ entry ∈ problem.entries, entry.WellFormed

/-- Every entry is well-formed. What the comment lines announce are members of
    vocabularies, and these need no condition. -/
def Transcript.WellFormed (transcript : Transcript) : Prop :=
  ∀ entry ∈ transcript.entries, entry.WellFormed

end Tptp
