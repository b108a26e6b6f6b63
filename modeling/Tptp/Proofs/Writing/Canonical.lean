import Tptp.Read

/-!
# Canonical Texts of Provenance

How sources and useful information are written.

Names, numbers and symbols have one canonical text: atoms are quoted, integers are in
decimal, and a real number is its coefficient with an exponent behind it. What has a
meaning is written as a keyword with arguments in parentheses, lists stand between
brackets, and an optional part that is absent leaves no trace.

Quoted formulas and terms are different. There is no canonical text of a formula here;
any text will do that is read as the formula, provided that a line ends behind it, for
it may end in a comment. So whether a text is one of a value is a relation. Numbers
beyond the limits of what is read have no text.

## Main definitions

* `Text.commaSeparated`, `Text.bracketed`, `Text.applied`: Lists and keywords.
* `Atom.written`, `UnitName.written`, `Number.written`: Canonical texts.
* `UnitName.InLimits`, `Number.InLimits`: The numbers that have one.
* `Expression.Written`: A quoted formula or term, in any text of it.
* `Info.Written`: Pieces of information.
* `Source.Written`, `Parent.Written`, `Provenance.Written`: Where a unit comes from.
-/

namespace Tptp

namespace Text

/-- Pieces with commas between them. -/
def commaSeparated : List (List Char) → List Char
  | [] => []
  | first :: others => first ++ others.flatMap (',' :: ·)

/-- A list between brackets. -/
def bracketed (pieces : List (List Char)) : List Char :=
  '[' :: (commaSeparated pieces ++ [']'])

/-- Arguments in parentheses. -/
def parenthesized (arguments : List (List Char)) : List Char :=
  '(' :: (commaSeparated arguments ++ [')'])

/-- A keyword with its arguments. -/
def applied (keyword : String) (arguments : List (List Char)) : List Char :=
  keyword.toList ++ parenthesized arguments

/-- Arguments in parentheses, or nothing if there are none. -/
def argumentList : List (List Char) → List Char
  | [] => []
  | arguments => parenthesized arguments

end Text

namespace Numeral

/-- The integer is not too long to be read. -/
def InLimit (n : Int) : Prop :=
  (digits n.natAbs).length ≤ digitLimit

end Numeral

/-- An atom between quotes, with quotes and backslashes escaped. -/
def Atom.written (a : Atom) : List Char :=
  Text.Quoted.encode '\x27' a.text.toList

/-- The name of a unit. -/
def UnitName.written : UnitName → List Char
  | .atom a => a.written
  | .number n => (Numeral.intText n).toList

/-- The number that names a unit is not too long. -/
def UnitName.InLimits : UnitName → Prop
  | .atom _ => True
  | .number n => Numeral.InLimit n

/-- A symbol that a step made up. -/
def Symbol.written : Symbol → List Char
  | .var v => v.text.toList
  | .atom a => a.written

/-- A decimal as its coefficient with an exponent. -/
def Decimal.written (d : Decimal) : List Char :=
  (if d.negative then ['-'] else []) ++ d.digits ++ 'e' :: (Numeral.intText d.exponent).toList

/-- A number in the form of its kind. -/
def Number.written : Number → List Char
  | .integer n => (Numeral.intText n).toList
  | .rational n d => (Numeral.intText n).toList ++ '/' :: Numeral.digits d
  | .real d => d.written

/-- No part of the number is too long, and it can be held. -/
def Number.InLimits : Number → Prop
  | .integer n => Numeral.InLimit n
  | .rational n d => Numeral.InLimit n ∧ Numeral.InLimit d
  | .real d => Numeral.InLimit d.coefficient ∧ d.isRepresentable = true

open Text

/-- The texts of a quoted formula or term. -/
inductive Expression.Written : Expression → List Char → Prop where
  | formula {language : Language} {text : String} {f : Formula}
      (h : Read.formula (some language) text = .ok f) :
      Written (.formula f)
        ('$' :: applied (Vocabulary.canonical language) [text.toList ++ ['\n']])
  | term {text : String} {t : Term} (h : Read.term text = .ok t) :
      Written (.term t) ('$' :: applied "fot" [text.toList ++ ['\n']])

/-- The texts of a piece of information. Where there is a list, the pieces in it come
    with a text each. -/
inductive Info.Written : Info → List Char → Prop where
  | description (a : Atom) : Written (.description a) (applied "description" [a.written])
  | iquote (a : Atom) : Written (.iquote a) (applied "iquote" [a.written])
  | status (word : Reserved Success) :
      Written (.status word) (applied "status" [word.text.toList])
  | assumptions {names : List UnitName} (h : ∀ name ∈ names, name.InLimits) :
      Written (.assumptions names)
        (applied "assumptions" [bracketed (names.map UnitName.written)])
  | newSymbols (a : Atom) (symbols : List Symbol) :
      Written (.newSymbols a symbols)
        (applied "new_symbols" [a.written, bracketed (symbols.map Symbol.written)])
  | refutation (a : Atom) : Written (.refutation a) (applied "refutation" [a.written])
  | expression {e : Expression} {text : List Char} (h : e.Written text) :
      Written (.expression e) text
  | bind (v : Var) {e : Expression} {text : List Char} (h : e.Written text) :
      Written (.bind v e) (applied "bind" [v.text.toList, text])
  | application (a : Atom) {pieces : List (Info × List Char)}
      (h : ∀ piece ∈ pieces, Written piece.1 piece.2) :
      Written (.application a (pieces.map Prod.fst))
        (a.written ++ argumentList (pieces.map Prod.snd))
  | number {n : Number} (h : n.InLimits) : Written (.number n) n.written
  | infos {pieces : List (Info × List Char)} (h : ∀ piece ∈ pieces, Written piece.1 piece.2) :
      Written (.infos (pieces.map Prod.fst)) (bracketed (pieces.map Prod.snd))

/-- The texts of a list of information that may be absent, as further arguments. -/
inductive Info.OptionalWritten : Option (List Info) → List (List Char) → Prop where
  | none : OptionalWritten none []
  | some {pieces : List (Info × List Char)} (h : ∀ piece ∈ pieces, piece.1.Written piece.2) :
      OptionalWritten (some (pieces.map Prod.fst)) [bracketed (pieces.map Prod.snd)]

mutual

/-- The texts of a source. -/
inductive Source.Written : Source → List Char → Prop where
  | unknown : Source.Written .unknown "unknown".toList
  | unit {name : UnitName} (h : name.InLimits) : Source.Written (.unit name) name.written
  | file (a : Atom) {unit : Option UnitName} (h : ∀ name ∈ unit, name.InLimits) :
      Source.Written (.file a unit)
        (applied "file" (a.written :: (unit.map UnitName.written).toList))
  | theory (a : Atom) {infos : Option (List Info)} {texts : List (List Char)}
      (h : Info.OptionalWritten infos texts) :
      Source.Written (.theory a infos) (applied "theory" (a.written :: texts))
  | creator (a : Atom) {infos : Option (List Info)} {texts : List (List Char)}
      (h : Info.OptionalWritten infos texts) :
      Source.Written (.creator a infos) (applied "creator" (a.written :: texts))
  | introduced (word : Reserved Intro) {infos : Option (List Info)} {texts : List (List Char)}
      (h : Info.OptionalWritten infos texts) :
      Source.Written (.introduced word infos)
        (applied "introduced" (word.text.toList :: texts))
  | inference (rule : Atom) {infos : List (Info × List Char)} {parents : List (Parent × List Char)}
      (hinfos : ∀ piece ∈ infos, piece.1.Written piece.2)
      (hparents : ∀ piece ∈ parents, Parent.Written piece.1 piece.2) :
      Source.Written (.inference rule (infos.map Prod.fst) (parents.map Prod.fst))
        (applied "inference" [rule.written, bracketed (infos.map Prod.snd),
          bracketed (parents.map Prod.snd)])

/-- The texts of a parent. Its information may be absent only if there is none. -/
inductive Parent.Written : Parent → List Char → Prop where
  | bare {source : Source} {text : List Char} (h : Source.Written source text) :
      Parent.Written (.of source []) text
  | noted {source : Source} {text : List Char} {infos : List (Info × List Char)}
      (h : Source.Written source text) (hinfos : ∀ piece ∈ infos, piece.1.Written piece.2) :
      Parent.Written (.of source (infos.map Prod.fst))
        (text ++ ':' :: bracketed (infos.map Prod.snd))

end

/-- The texts of a source with its information. -/
inductive Provenance.Written : Provenance → List Char → Prop where
  | of {source : Source} {text : List Char} {infos : Option (List Info)}
      {texts : List (List Char)} (h : Source.Written source text)
      (hinfos : Info.OptionalWritten infos texts) :
      Written ⟨source, infos⟩ (commaSeparated (text :: texts))

end Tptp
