import Tptp.Vocabulary.Basic

/-!
# Result Codes

What a prover can say about the outcome of a run, and in which form it can
print a solution.

Each member has a short code, which is its spelling inside the annotations of a
derivation, and a long name, which is how the comment lines of a transcript
announce it.

## Main definitions

* `Success`: The statuses of a run that established something.
* `NoSuccess`: The statuses of a run that established nothing.
* `Dataform`: The forms of the data a run puts out.
* `Status`: Either kind of status.
-/

namespace Tptp

/-- The statuses of a run that established something. -/
inductive Success where
  | success
  | unsatisfiabilityPreserving
  | satisfiabilityPreserving
  | equiSatisfiable
  | satisfiable
  | finitelySatisfiable
  | isTheorem
  | equivalent
  | tautologousConclusion
  | weakerConclusion
  | equivalentTheorem
  | tautology
  | weakerTautologousConclusion
  | weakerTheorem
  | contradictoryAxioms
  | satisfiableConclusionContradictoryAxioms
  | tautologousConclusionContradictoryAxioms
  | weakerConclusionContradictoryAxioms
  | counterUnsatisfiabilityPreserving
  | counterSatisfiabilityPreserving
  | equiCounterSatisfiable
  | counterSatisfiable
  | counterTheorem
  | counterEquivalent
  | unsatisfiableConclusion
  | weakerCounterConclusion
  | equivalentCounterTheorem
  | finitelyUnsatisfiable
  | unsatisfiable
  | weakerUnsatisfiableConclusion
  | weakerCounterTheorem
  | satisfiableCounterConclusionContradictoryAxioms
  | unsatisfiableConclusionContradictoryAxioms
  | noConsequence
deriving DecidableEq

namespace Success

/-- The members in the order of their declaration. -/
def all : List Success :=
  [.success, .unsatisfiabilityPreserving, .satisfiabilityPreserving, .equiSatisfiable,
   .satisfiable, .finitelySatisfiable, .isTheorem, .equivalent, .tautologousConclusion,
   .weakerConclusion, .equivalentTheorem, .tautology, .weakerTautologousConclusion,
   .weakerTheorem, .contradictoryAxioms, .satisfiableConclusionContradictoryAxioms,
   .tautologousConclusionContradictoryAxioms, .weakerConclusionContradictoryAxioms,
   .counterUnsatisfiabilityPreserving, .counterSatisfiabilityPreserving,
   .equiCounterSatisfiable, .counterSatisfiable, .counterTheorem, .counterEquivalent,
   .unsatisfiableConclusion, .weakerCounterConclusion, .equivalentCounterTheorem,
   .finitelyUnsatisfiable, .unsatisfiable, .weakerUnsatisfiableConclusion,
   .weakerCounterTheorem, .satisfiableCounterConclusionContradictoryAxioms,
   .unsatisfiableConclusionContradictoryAxioms, .noConsequence]

/-- The code of a member. -/
def code : Success → String
  | .success => "suc"
  | .unsatisfiabilityPreserving => "unp"
  | .satisfiabilityPreserving => "sap"
  | .equiSatisfiable => "esa"
  | .satisfiable => "sat"
  | .finitelySatisfiable => "fsa"
  | .isTheorem => "thm"
  | .equivalent => "eqv"
  | .tautologousConclusion => "tac"
  | .weakerConclusion => "wec"
  | .equivalentTheorem => "eth"
  | .tautology => "tau"
  | .weakerTautologousConclusion => "wtc"
  | .weakerTheorem => "wth"
  | .contradictoryAxioms => "cax"
  | .satisfiableConclusionContradictoryAxioms => "sca"
  | .tautologousConclusionContradictoryAxioms => "tca"
  | .weakerConclusionContradictoryAxioms => "wca"
  | .counterUnsatisfiabilityPreserving => "cup"
  | .counterSatisfiabilityPreserving => "csp"
  | .equiCounterSatisfiable => "ecs"
  | .counterSatisfiable => "csa"
  | .counterTheorem => "cth"
  | .counterEquivalent => "ceq"
  | .unsatisfiableConclusion => "unc"
  | .weakerCounterConclusion => "wcc"
  | .equivalentCounterTheorem => "ect"
  | .finitelyUnsatisfiable => "fun"
  | .unsatisfiable => "uns"
  | .weakerUnsatisfiableConclusion => "wuc"
  | .weakerCounterTheorem => "wct"
  | .satisfiableCounterConclusionContradictoryAxioms => "scc"
  | .unsatisfiableConclusionContradictoryAxioms => "uca"
  | .noConsequence => "noc"

/-- The name of a member in the ontology. -/
def longName : Success → String
  | .success => "Success"
  | .unsatisfiabilityPreserving => "UnsatisfiabilityPreserving"
  | .satisfiabilityPreserving => "SatisfiabilityPreserving"
  | .equiSatisfiable => "EquiSatisfiable"
  | .satisfiable => "Satisfiable"
  | .finitelySatisfiable => "FinitelySatisfiable"
  | .isTheorem => "Theorem"
  | .equivalent => "Equivalent"
  | .tautologousConclusion => "TautologousConclusion"
  | .weakerConclusion => "WeakerConclusion"
  | .equivalentTheorem => "EquivalentTheorem"
  | .tautology => "Tautology"
  | .weakerTautologousConclusion => "WeakerTautologousConclusion"
  | .weakerTheorem => "WeakerTheorem"
  | .contradictoryAxioms => "ContradictoryAxioms"
  | .satisfiableConclusionContradictoryAxioms => "SatisfiableConclusionContradictoryAxioms"
  | .tautologousConclusionContradictoryAxioms => "TautologousConclusionContradictoryAxioms"
  | .weakerConclusionContradictoryAxioms => "WeakerConclusionContradictoryAxioms"
  | .counterUnsatisfiabilityPreserving => "CounterUnsatisfiabilityPreserving"
  | .counterSatisfiabilityPreserving => "CounterSatisfiabilityPreserving"
  | .equiCounterSatisfiable => "EquiCounterSatisfiable"
  | .counterSatisfiable => "CounterSatisfiable"
  | .counterTheorem => "CounterTheorem"
  | .counterEquivalent => "CounterEquivalent"
  | .unsatisfiableConclusion => "UnsatisfiableConclusion"
  | .weakerCounterConclusion => "WeakerCounterConclusion"
  | .equivalentCounterTheorem => "EquivalentCounterTheorem"
  | .finitelyUnsatisfiable => "FinitelyUnsatisfiable"
  | .unsatisfiable => "Unsatisfiable"
  | .weakerUnsatisfiableConclusion => "WeakerUnsatisfiableConclusion"
  | .weakerCounterTheorem => "WeakerCounterTheorem"
  | .satisfiableCounterConclusionContradictoryAxioms => "SatisfiableCounterConclusionContradictoryAxioms"
  | .unsatisfiableConclusionContradictoryAxioms => "UnsatisfiableConclusionContradictoryAxioms"
  | .noConsequence => "NoConsequence"

end Success

instance : Ontology Success where
  title := "Success"
  members := Success.all
  canonical := Success.code
  mem_members := fun v => by cases v <;> decide
  nodup_canonical := by decide
  ontologyName := Success.longName
  nodup_ontologyName := by decide

/-- The statuses of a run that established nothing. -/
inductive NoSuccess where
  | noSuccess
  | isOpen
  | unknown
  | assumed
  | stopped
  | error
  | osError
  | inputError
  | usageError
  | syntaxError
  | semanticError
  | typeError
  | forced
  | user
  | resourceOut
  | timeout
  | memoryOut
  | gaveUp
  | incomplete
  | inappropriate
  | inProgress
  | notTried
  | notTriedYet
deriving DecidableEq

namespace NoSuccess

/-- The members in the order of their declaration. -/
def all : List NoSuccess :=
  [.noSuccess, .isOpen, .unknown, .assumed, .stopped, .error, .osError, .inputError,
   .usageError, .syntaxError, .semanticError, .typeError, .forced, .user, .resourceOut,
   .timeout, .memoryOut, .gaveUp, .incomplete, .inappropriate, .inProgress, .notTried,
   .notTriedYet]

/-- The code of a member. -/
def code : NoSuccess → String
  | .noSuccess => "nos"
  | .isOpen => "opn"
  | .unknown => "unk"
  | .assumed => "ass"
  | .stopped => "stp"
  | .error => "err"
  | .osError => "ose"
  | .inputError => "ine"
  | .usageError => "use"
  | .syntaxError => "sye"
  | .semanticError => "see"
  | .typeError => "tye"
  | .forced => "for"
  | .user => "usr"
  | .resourceOut => "rso"
  | .timeout => "tmo"
  | .memoryOut => "mmo"
  | .gaveUp => "gup"
  | .incomplete => "inc"
  | .inappropriate => "iap"
  | .inProgress => "inp"
  | .notTried => "ntt"
  | .notTriedYet => "nty"

/-- The name of a member in the ontology. -/
def longName : NoSuccess → String
  | .noSuccess => "NoSuccess"
  | .isOpen => "Open"
  | .unknown => "Unknown"
  | .assumed => "Assumed"
  | .stopped => "Stopped"
  | .error => "Error"
  | .osError => "OSError"
  | .inputError => "InputError"
  | .usageError => "UsageError"
  | .syntaxError => "SyntaxError"
  | .semanticError => "SemanticError"
  | .typeError => "TypeError"
  | .forced => "Forced"
  | .user => "User"
  | .resourceOut => "ResourceOut"
  | .timeout => "Timeout"
  | .memoryOut => "MemoryOut"
  | .gaveUp => "GaveUp"
  | .incomplete => "Incomplete"
  | .inappropriate => "Inappropriate"
  | .inProgress => "InProgress"
  | .notTried => "NotTried"
  | .notTriedYet => "NotTriedYet"

end NoSuccess

instance : Ontology NoSuccess where
  title := "NoSuccess"
  members := NoSuccess.all
  canonical := NoSuccess.code
  mem_members := fun v => by cases v <;> decide
  nodup_canonical := by decide
  ontologyName := NoSuccess.longName
  nodup_ontologyName := by decide

/-- The forms of the data a run puts out. -/
inductive Dataform where
  | logicalData
  | solution
  | proof
  | derivation
  | refutation
  | cnfRefutation
  | interpretation
  | model
  | partialInterpretation
  | partialModel
  | strictlyPartialInterpretation
  | strictlyPartialModel
  | domainInterpretation
  | domainModel
  | domainPartialInterpretation
  | domainPartialModel
  | domainStrictlyPartialInterpretation
  | domainStrictlyPartialModel
  | finiteInterpretation
  | finiteModel
  | finitePartialInterpretation
  | finitePartialModel
  | finiteStrictlyPartialInterpretation
  | finiteStrictlyPartialModel
  | herbrandInterpretation
  | herbrandModel
  | formulaInterpretation
  | formulaModel
  | formulaPartialInterpretation
  | formulaStrictlyPartialInterpretation
  | formulaStrictlyPartialModel
  | saturation
  | listOfFormulae
  | listOfTHF
  | listOfTFF
  | listOfFOF
  | listOfCNF
  | notASolution
  | assurance
  | incompleteProof
  | incompleteInterpretation
  | noDataform
deriving DecidableEq

namespace Dataform

/-- The members in the order of their declaration. -/
def all : List Dataform :=
  [.logicalData, .solution, .proof, .derivation, .refutation, .cnfRefutation, .interpretation,
   .model, .partialInterpretation, .partialModel, .strictlyPartialInterpretation,
   .strictlyPartialModel, .domainInterpretation, .domainModel, .domainPartialInterpretation,
   .domainPartialModel, .domainStrictlyPartialInterpretation, .domainStrictlyPartialModel,
   .finiteInterpretation, .finiteModel, .finitePartialInterpretation, .finitePartialModel,
   .finiteStrictlyPartialInterpretation, .finiteStrictlyPartialModel, .herbrandInterpretation,
   .herbrandModel, .formulaInterpretation, .formulaModel, .formulaPartialInterpretation,
   .formulaStrictlyPartialInterpretation, .formulaStrictlyPartialModel, .saturation,
   .listOfFormulae, .listOfTHF, .listOfTFF, .listOfFOF, .listOfCNF, .notASolution, .assurance,
   .incompleteProof, .incompleteInterpretation, .noDataform]

/-- The code of a member. -/
def code : Dataform → String
  | .logicalData => "LDa"
  | .solution => "Sln"
  | .proof => "Prf"
  | .derivation => "Der"
  | .refutation => "Ref"
  | .cnfRefutation => "CRf"
  | .interpretation => "Int"
  | .model => "Mod"
  | .partialInterpretation => "Pin"
  | .partialModel => "PMo"
  | .strictlyPartialInterpretation => "SIn"
  | .strictlyPartialModel => "SMo"
  | .domainInterpretation => "DIn"
  | .domainModel => "DMo"
  | .domainPartialInterpretation => "DPI"
  | .domainPartialModel => "DPM"
  | .domainStrictlyPartialInterpretation => "DSI"
  | .domainStrictlyPartialModel => "DSM"
  | .finiteInterpretation => "FIn"
  | .finiteModel => "FMo"
  | .finitePartialInterpretation => "FPI"
  | .finitePartialModel => "FPM"
  | .finiteStrictlyPartialInterpretation => "FSI"
  | .finiteStrictlyPartialModel => "FSM"
  | .herbrandInterpretation => "HIn"
  | .herbrandModel => "HMo"
  | .formulaInterpretation => "TIn"
  | .formulaModel => "TMo"
  | .formulaPartialInterpretation => "TPI"
  | .formulaStrictlyPartialInterpretation => "TSI"
  | .formulaStrictlyPartialModel => "TSM"
  | .saturation => "Sat"
  | .listOfFormulae => "Lof"
  | .listOfTHF => "Lth"
  | .listOfTFF => "Ltf"
  | .listOfFOF => "Lfo"
  | .listOfCNF => "Lcn"
  | .notASolution => "NSo"
  | .assurance => "Ass"
  | .incompleteProof => "IPr"
  | .incompleteInterpretation => "IIn"
  | .noDataform => "Non"

/-- The name of a member in the ontology. -/
def longName : Dataform → String
  | .logicalData => "LogicalData"
  | .solution => "Solution"
  | .proof => "Proof"
  | .derivation => "Derivation"
  | .refutation => "Refutation"
  | .cnfRefutation => "CNFRefutation"
  | .interpretation => "Interpretation"
  | .model => "Model"
  | .partialInterpretation => "PartialInterpretation"
  | .partialModel => "PartialModel"
  | .strictlyPartialInterpretation => "StrictlyPartialInterpretation"
  | .strictlyPartialModel => "StrictlyPartialModel"
  | .domainInterpretation => "DomainInterpretation"
  | .domainModel => "DomainModel"
  | .domainPartialInterpretation => "DomainPartialInterpretation"
  | .domainPartialModel => "DomainPartialModel"
  | .domainStrictlyPartialInterpretation => "DomainStrictlyPartialInterpretation"
  | .domainStrictlyPartialModel => "DomainStrictlyPartialModel"
  | .finiteInterpretation => "FiniteInterpretation"
  | .finiteModel => "FiniteModel"
  | .finitePartialInterpretation => "FinitePartialInterpretation"
  | .finitePartialModel => "FinitePartialModel"
  | .finiteStrictlyPartialInterpretation => "FiniteStrictlyPartialInterpretation"
  | .finiteStrictlyPartialModel => "FiniteStrictlyPartialModel"
  | .herbrandInterpretation => "HerbrandInterpretation"
  | .herbrandModel => "HerbrandModel"
  | .formulaInterpretation => "FormulaInterpretation"
  | .formulaModel => "FormulaModel"
  | .formulaPartialInterpretation => "FormulaPartialInterpretation"
  | .formulaStrictlyPartialInterpretation => "FormulaStrictlyPartialInterpretation"
  | .formulaStrictlyPartialModel => "FormulaStrictlyPartialModel"
  | .saturation => "Saturation"
  | .listOfFormulae => "ListOfFormulae"
  | .listOfTHF => "ListOfTHF"
  | .listOfTFF => "ListOfTFF"
  | .listOfFOF => "ListOfFOF"
  | .listOfCNF => "ListOfCNF"
  | .notASolution => "NotASolution"
  | .assurance => "Assurance"
  | .incompleteProof => "IncompleteProof"
  | .incompleteInterpretation => "IncompleteInterpretation"
  | .noDataform => "None"

end Dataform

instance : Ontology Dataform where
  title := "Dataform"
  members := Dataform.all
  canonical := Dataform.code
  mem_members := fun v => by cases v <;> decide
  nodup_canonical := by decide
  ontologyName := Dataform.longName
  nodup_ontologyName := by decide

/-- The status of a run. -/
inductive Status where
  | noSuccess (code : NoSuccess)
  | success (code : Success)
deriving DecidableEq

end Tptp
