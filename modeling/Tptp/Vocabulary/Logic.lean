import Tptp.Vocabulary.Basic

/-!
# Vocabularies of the Logic

The names that the logical languages give a meaning to.

Some of them are signs, written as they are: the connectives, the quantifiers,
the equality signs, the modal operators. The others are words. A language or a
role stands bare; a defined function, predicate or sort is written behind a
dollar sign, which is not part of its spelling here.

## Main definitions

* `Language`: The languages a unit can be written in.
* `DefinedFunction`, `DefinedPredicate`, `DefinedSort`: The words with a
  meaning of their own.
* `Sign`, `Quantifier`, `Connective`, `Modality`: The logical signs.
* `Role`: What a formula is there for.
* `Intro`: How a formula came into a derivation without parents.
* `Connective.isAssociative`: Chains of a connective may be regrouped.
-/

namespace Tptp

/-- The language a unit is written in. -/
inductive Language where
  | cnf
  | fof
  | tff
  | qmf
deriving DecidableEq

namespace Language

/-- The members in the order of their declaration. -/
def all : List Language :=
  [.cnf, .fof, .tff, .qmf]

/-- The spelling of a member. -/
def spelling : Language → String
  | .cnf => "cnf"
  | .fof => "fof"
  | .tff => "tff"
  | .qmf => "qmf"

end Language

instance : Vocabulary Language where
  title := "Language"
  members := Language.all
  canonical := Language.spelling
  mem_members := fun v => by cases v <;> decide
  nodup_canonical := by decide

/-- The functions of arithmetic. -/
inductive DefinedFunction where
  | uminus
  | sum
  | difference
  | product
  | quotient
  | quotientE
  | quotientT
  | quotientF
  | remainderE
  | remainderT
  | remainderF
  | floor
  | ceiling
  | truncate
  | round
  | toInt
  | toRat
  | toReal
deriving DecidableEq

namespace DefinedFunction

/-- The members in the order of their declaration. -/
def all : List DefinedFunction :=
  [.uminus, .sum, .difference, .product, .quotient, .quotientE, .quotientT, .quotientF,
   .remainderE, .remainderT, .remainderF, .floor, .ceiling, .truncate, .round, .toInt, .toRat,
   .toReal]

/-- The spelling of a member. -/
def spelling : DefinedFunction → String
  | .uminus => "uminus"
  | .sum => "sum"
  | .difference => "difference"
  | .product => "product"
  | .quotient => "quotient"
  | .quotientE => "quotient_e"
  | .quotientT => "quotient_t"
  | .quotientF => "quotient_f"
  | .remainderE => "remainder_e"
  | .remainderT => "remainder_t"
  | .remainderF => "remainder_f"
  | .floor => "floor"
  | .ceiling => "ceiling"
  | .truncate => "truncate"
  | .round => "round"
  | .toInt => "to_int"
  | .toRat => "to_rat"
  | .toReal => "to_real"

end DefinedFunction

instance : Vocabulary DefinedFunction where
  title := "Function"
  members := DefinedFunction.all
  canonical := DefinedFunction.spelling
  mem_members := fun v => by cases v <;> decide
  nodup_canonical := by decide

/-- The predicates with a meaning of their own. -/
inductive DefinedPredicate where
  | verum
  | falsum
  | distinct
  | less
  | lesseq
  | greater
  | greatereq
  | isInt
  | isRat
deriving DecidableEq

namespace DefinedPredicate

/-- The members in the order of their declaration. -/
def all : List DefinedPredicate :=
  [.verum, .falsum, .distinct, .less, .lesseq, .greater, .greatereq, .isInt, .isRat]

/-- The spelling of a member. -/
def spelling : DefinedPredicate → String
  | .verum => "true"
  | .falsum => "false"
  | .distinct => "distinct"
  | .less => "less"
  | .lesseq => "lesseq"
  | .greater => "greater"
  | .greatereq => "greatereq"
  | .isInt => "is_int"
  | .isRat => "is_rat"

end DefinedPredicate

instance : Vocabulary DefinedPredicate where
  title := "Predicate"
  members := DefinedPredicate.all
  canonical := DefinedPredicate.spelling
  mem_members := fun v => by cases v <;> decide
  nodup_canonical := by decide

/-- The built-in sorts. -/
inductive DefinedSort where
  | individual
  | boolean
  | int
  | real
  | rat
deriving DecidableEq

namespace DefinedSort

/-- The members in the order of their declaration. -/
def all : List DefinedSort :=
  [.individual, .boolean, .int, .real, .rat]

/-- The spelling of a member. -/
def spelling : DefinedSort → String
  | .individual => "i"
  | .boolean => "o"
  | .int => "int"
  | .real => "real"
  | .rat => "rat"

end DefinedSort

instance : Vocabulary DefinedSort where
  title := "Sort"
  members := DefinedSort.all
  canonical := DefinedSort.spelling
  mem_members := fun v => by cases v <;> decide
  nodup_canonical := by decide

/-- The polarity of a literal, spelled as the sign between two terms. -/
inductive Sign where
  | positive
  | negative
deriving DecidableEq

namespace Sign

/-- The members in the order of their declaration. -/
def all : List Sign :=
  [.positive, .negative]

/-- The spelling of a member. -/
def spelling : Sign → String
  | .positive => "="
  | .negative => "!="

end Sign

instance : Vocabulary Sign where
  title := "Sign"
  members := Sign.all
  canonical := Sign.spelling
  mem_members := fun v => by cases v <;> decide
  nodup_canonical := by decide

/-- The quantifiers. -/
inductive Quantifier where
  | universal
  | existential
deriving DecidableEq

namespace Quantifier

/-- The members in the order of their declaration. -/
def all : List Quantifier :=
  [.universal, .existential]

/-- The spelling of a member. -/
def spelling : Quantifier → String
  | .universal => "!"
  | .existential => "?"

end Quantifier

instance : Vocabulary Quantifier where
  title := "Quantifier"
  members := Quantifier.all
  canonical := Quantifier.spelling
  mem_members := fun v => by cases v <;> decide
  nodup_canonical := by decide

/-- The binary connectives. -/
inductive Connective where
  | conjunction
  | disjunction
  | implication
  | equivalence
  | exclusiveOr
  | negatedConjunction
  | negatedDisjunction
  | reversedImplication
deriving DecidableEq

namespace Connective

/-- The members in the order of their declaration. -/
def all : List Connective :=
  [.conjunction, .disjunction, .implication, .equivalence, .exclusiveOr, .negatedConjunction,
   .negatedDisjunction, .reversedImplication]

/-- The spelling of a member. -/
def spelling : Connective → String
  | .conjunction => "&"
  | .disjunction => "|"
  | .implication => "=>"
  | .equivalence => "<=>"
  | .exclusiveOr => "<~>"
  | .negatedConjunction => "~&"
  | .negatedDisjunction => "~|"
  | .reversedImplication => "<="

end Connective

instance : Vocabulary Connective where
  title := "Connective"
  members := Connective.all
  canonical := Connective.spelling
  mem_members := fun v => by cases v <;> decide
  nodup_canonical := by decide

/-- Chains of the connective may be regrouped. -/
def Connective.isAssociative (c : Connective) : Bool :=
  c = .conjunction || c = .disjunction

/-- The modal operators. -/
inductive Modality where
  | necessary
  | possible
deriving DecidableEq

namespace Modality

/-- The members in the order of their declaration. -/
def all : List Modality :=
  [.necessary, .possible]

/-- The spelling of a member. -/
def spelling : Modality → String
  | .necessary => "#box"
  | .possible => "#dia"

end Modality

instance : Vocabulary Modality where
  title := "Modality"
  members := Modality.all
  canonical := Modality.spelling
  mem_members := fun v => by cases v <;> decide
  nodup_canonical := by decide

/-- What a formula is there for in a problem or a derivation. -/
inductive Role where
  | asAxiom
  | asHypothesis
  | asDefinition
  | asAssumption
  | asLemma
  | asTheorem
  | asCorollary
  | asConjecture
  | asNegatedConjecture
  | asPlain
  | asFiDomain
  | asFiFunctors
  | asFiPredicates
  | asUnknown
deriving DecidableEq

namespace Role

/-- The members in the order of their declaration. -/
def all : List Role :=
  [.asAxiom, .asHypothesis, .asDefinition, .asAssumption, .asLemma, .asTheorem, .asCorollary,
   .asConjecture, .asNegatedConjecture, .asPlain, .asFiDomain, .asFiFunctors, .asFiPredicates,
   .asUnknown]

/-- The spelling of a member. -/
def spelling : Role → String
  | .asAxiom => "axiom"
  | .asHypothesis => "hypothesis"
  | .asDefinition => "definition"
  | .asAssumption => "assumption"
  | .asLemma => "lemma"
  | .asTheorem => "theorem"
  | .asCorollary => "corollary"
  | .asConjecture => "conjecture"
  | .asNegatedConjecture => "negated_conjecture"
  | .asPlain => "plain"
  | .asFiDomain => "fi_domain"
  | .asFiFunctors => "fi_functors"
  | .asFiPredicates => "fi_predicates"
  | .asUnknown => "unknown"

end Role

instance : Vocabulary Role where
  title := "Role"
  members := Role.all
  canonical := Role.spelling
  mem_members := fun v => by cases v <;> decide
  nodup_canonical := by decide

/-- The ways in which a formula comes into a derivation without parents. -/
inductive Intro where
  | byDefinition
  | byChoice
  | byTautology
  | byAssumption
deriving DecidableEq

namespace Intro

/-- The members in the order of their declaration. -/
def all : List Intro :=
  [.byDefinition, .byChoice, .byTautology, .byAssumption]

/-- The spelling of a member. -/
def spelling : Intro → String
  | .byDefinition => "definition"
  | .byChoice => "axiom_of_choice"
  | .byTautology => "tautology"
  | .byAssumption => "assumption"

end Intro

instance : Vocabulary Intro where
  title := "Intro"
  members := Intro.all
  canonical := Intro.spelling
  mem_members := fun v => by cases v <;> decide
  nodup_canonical := by decide

end Tptp
