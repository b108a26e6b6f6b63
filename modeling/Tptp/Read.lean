import Tptp.Grammar.Document
import Tptp.Reading.Session

/-!
# Reading the Language

The ways into the library for a text: one function for each thing that can be
read by itself.

Each of them reads the whole of its text, layout around it included. The value is
an error if the text does not match the grammar, and also if reading was given up
because the text holds a number too large or is nested too deeply.

## Main definitions

* `nestingAllowance`: How deep a text may be nested.
* `Read.problem`, `Read.transcript`, `Read.entry`: Documents and their entries.
* `Read.formula`: Formulas of a language.
* `Read.announcements`: The summary of a transcript, which any text has.
-/

namespace Tptp

/-- How deep a text may be nested. A level of nesting takes one or two units. -/
def nestingAllowance : Nat := 4000

namespace Read

open Reading

/-- Reads an atom. -/
def atom (text : String) : Except ReadError Atom :=
  read Grammar.atom text

/-- Reads a variable. -/
def var (text : String) : Except ReadError Var :=
  read Grammar.var text

/-- Reads a distinct object. -/
def distinctObject (text : String) : Except ReadError DistinctObject :=
  read Grammar.distinctObject text

/-- Reads the name of a function symbol. -/
def function (text : String) : Except ReadError FunctionName :=
  read Grammar.function text

/-- Reads the name of a predicate symbol. -/
def predicate (text : String) : Except ReadError PredicateName :=
  read Grammar.predicate text

/-- Reads the name of a sort. -/
def sort (text : String) : Except ReadError SortName :=
  read Grammar.sort text

/-- Reads a sort. -/
def polySort (text : String) : Except ReadError (PolySort SortName) :=
  read (Grammar.polySort nestingAllowance) text

/-- Reads a type. -/
def signature (text : String) : Except ReadError Signature :=
  read (Grammar.signature nestingAllowance) text

/-- Reads a number. -/
def number (text : String) : Except ReadError Number :=
  read Grammar.number text

/-- Reads a term. -/
def term (text : String) : Except ReadError Term :=
  read (Grammar.term nestingAllowance) text

/-- Reads a literal. -/
def literal (text : String) : Except ReadError Literal :=
  read (Grammar.literal nestingAllowance) text

/-- Reads a clause. -/
def clause (text : String) : Except ReadError Clause :=
  read (Grammar.clause nestingAllowance) text

/-- Reads an unsorted formula. -/
def unsortedFormula (text : String) : Except ReadError UnsortedFormula :=
  read (Grammar.unsortedFormula nestingAllowance) text

/-- Reads a monomorphic formula. -/
def monoFormula (text : String) : Except ReadError MonoFormula :=
  read (Grammar.monoFormula nestingAllowance) text

/-- Reads a polymorphic formula. -/
def polyFormula (text : String) : Except ReadError PolyFormula :=
  read (Grammar.polyFormula nestingAllowance) text

/-- Reads a modal formula. -/
def modalFormula (text : String) : Except ReadError ModalFormula :=
  read (Grammar.modalFormula nestingAllowance) text

/-- Reads a formula of a language, if the language exists. -/
def formula (language : Option Language) (text : String) : Except ReadError Formula :=
  read (Grammar.formulaIn language nestingAllowance) text

/-- Reads an entry of a document. -/
def entry (text : String) : Except ReadError Entry :=
  read (Grammar.entry nestingAllowance) text

/-- Reads a problem. -/
def problem (text : String) : Except ReadError Problem :=
  read (Grammar.problem nestingAllowance) text

/-- Reads a transcript. The comments in front are part of it. -/
def transcript (text : String) : Except ReadError Transcript :=
  readFromStart (Grammar.transcript nestingAllowance) text

/-- Reads what the leading comment lines of a text announce. This always comes to
    something, since a text may announce nothing. -/
def announcements (text : String) : Szs.Summary :=
  match (Grammar.announcements (.ofList text.toList)).outcome with
  | .done summary _ => summary
  | _ => .empty

/-- Reads the announcement of a single comment line. -/
def announcement (comment : String) : Option Szs.Summary :=
  Szs.Summary.ofComment? comment.toList

/-- Reads a way of introducing a formula. -/
def intro (text : String) : Except ReadError (Reserved Intro) :=
  read Grammar.intro text

/-- Reads a piece of information. -/
def info (text : String) : Except ReadError Info :=
  read (Grammar.info nestingAllowance) text

/-- Reads a parent. -/
def parent (text : String) : Except ReadError Parent :=
  read (Grammar.parent nestingAllowance) text

/-- Reads a source. -/
def source (text : String) : Except ReadError Source :=
  read (Grammar.source nestingAllowance) text

/-- Reads a source with its information. -/
def provenance (text : String) : Except ReadError Provenance :=
  read (Grammar.provenance nestingAllowance) text

end Read

end Tptp
