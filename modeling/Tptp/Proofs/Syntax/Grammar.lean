import Tptp.Grammar.Formula
import Tptp.Proofs.Syntax.Lexeme

/-!
# The Grammar of Formulas

Which token sequences are terms, literals and formulas, and what they mean.

The rules are those of a context-free grammar, with the tree that each of them
builds. Nothing in them says how a text is to be read: alternatives stand side by
side, and a rule may be used wherever its parts are found. Redundant parentheses
leave no trace in the tree, and a chain of connectives is grouped to the right.

The languages share the rules for formulas. What a quantifier lists is a parameter,
as it is for the productions, and so is the dialect that puts the parts together.

## Main definitions

* `IsTerm`, `IsArgument`: Terms, and terms in redundant parentheses.
* `IsLiteral`: Literals.
* `AreBinders`, `IsUnitary`, `IsFormula`: Formulas of a dialect.
* `IsUnsorted`: Unsorted formulas.
-/

namespace Tptp

namespace Syntax

open Reading Grammar

mutual

/-- A variable, a distinct object, a number, or a function symbol with arguments. -/
inductive IsTerm : List Token → Term → Prop where
  | var (v : Var) : IsTerm [.var v] (.var v)
  | distinct (d : DistinctObject) : IsTerm [.distinct d] (.distinct d)
  | number (n : Number) : IsTerm [.number n] (.number n)
  | function {token : Token} {tokens : List Token} {name : FunctionName} {terms : List Term}
      (hname : token.name? DefinedFunction = some name) (hterms : AreArguments tokens terms) :
      IsTerm (token :: tokens) (.function name terms)

/-- A term, or one in parentheses. -/
inductive IsArgument : List Token → Term → Prop where
  | bare {tokens : List Token} {t : Term} (h : IsTerm tokens t) : IsArgument tokens t
  | parens {tokens : List Token} {t : Term} (h : IsArgument tokens t) :
      IsArgument (.mark .opening :: (tokens ++ [.mark .closing])) t

/-- Nothing, or terms between parentheses. -/
inductive AreArguments : List Token → List Term → Prop where
  | none : AreArguments [] []
  | some {front back : List Token} {t : Term} {terms : List Term} (hfirst : IsArgument front t)
      (hothers : AreMoreArguments back terms) :
      AreArguments (.mark .opening :: (front ++ back)) (t :: terms)

/-- Terms behind commas, and the parenthesis that closes the list. -/
inductive AreMoreArguments : List Token → List Term → Prop where
  | close : AreMoreArguments [.mark .closing] []
  | comma {front back : List Token} {t : Term} {terms : List Term} (hfirst : IsArgument front t)
      (hothers : AreMoreArguments back terms) :
      AreMoreArguments (.mark .comma :: (front ++ back)) (t :: terms)

end

/-- An equation, a disequation, or a predicate symbol with arguments. -/
inductive IsLiteral : List Token → Literal → Prop where
  | equality {front back : List Token} {left right : Term} (s : Sign)
      (hleft : IsArgument front left) (hright : IsArgument back right) :
      IsLiteral (front ++ .sign s :: back) (.equality left s right)
  | predicate {token : Token} {tokens : List Token} {name : PredicateName} {terms : List Term}
      (hname : token.name? DefinedPredicate = some name) (hterms : AreArguments tokens terms) :
      IsLiteral (token :: tokens) (.predicate name terms)

section

variable {F B : Type}

/-- What a quantifier lists: one binder, or more of them between commas. -/
inductive AreBinders (binder : List Token → B → Prop) : List Token → List B → Prop where
  | one {tokens : List Token} {b : B} (h : binder tokens b) : AreBinders binder tokens [b]
  | comma {front back : List Token} {b : B} {bound : List B} (hfirst : binder front b)
      (hothers : AreBinders binder back bound) :
      AreBinders binder (front ++ .mark .comma :: back) (b :: bound)

mutual

/-- A negation, a quantified or modal formula, a literal, or a formula in
    parentheses. -/
inductive IsUnitary (dialect : Dialect F B) (binder : List Token → B → Prop) :
    List Token → F → Prop where
  | negated {tokens : List Token} {f : F} (h : IsUnitary dialect binder tokens f) :
      IsUnitary dialect binder (.mark .tilde :: tokens) (dialect.negated f)
  | quantified {front back : List Token} {bound : List B} {f g : F} (q : Quantifier)
      (hbound : AreBinders binder front bound) (hf : IsUnitary dialect binder back f)
      (hg : dialect.quantified q bound f = .ok g) :
      IsUnitary dialect binder
        (.quantifier q :: .mark .openingBracket ::
          (front ++ .mark .closingBracket :: .mark .colon :: back)) g
  | modal {tokens : List Token} {f g : F} {apply : Modality → F → F} (m : Modality)
      (hmodal : dialect.modal = some apply) (hf : IsUnitary dialect binder tokens f)
      (hg : apply m f = g) : IsUnitary dialect binder (.modality m :: .mark .colon :: tokens) g
  | literal {tokens : List Token} {l : Literal} (h : IsLiteral tokens l) :
      IsUnitary dialect binder tokens (dialect.atomic l)
  | parens {tokens : List Token} {f : F} (h : IsFormula dialect binder tokens f) :
      IsUnitary dialect binder (.mark .opening :: (tokens ++ [.mark .closing])) f

/-- Unitary formulas with connectives between them, grouped to the right. -/
inductive IsFormula (dialect : Dialect F B) (binder : List Token → B → Prop) :
    List Token → F → Prop where
  | unitary {tokens : List Token} {f : F} (h : IsUnitary dialect binder tokens f) :
      IsFormula dialect binder tokens f
  | connected {front back : List Token} {f g : F} (c : Connective)
      (hf : IsUnitary dialect binder front f) (hg : IsFormula dialect binder back g) :
      IsFormula dialect binder (front ++ .connective c :: back) (dialect.connected f c g)

end

end

/-- A variable that nothing is said about. -/
def IsBareVariable (tokens : List Token) (bound : Var × Unsorted) : Prop :=
  tokens = [.var bound.1]

/-- An unsorted formula. -/
def IsUnsorted : List Token → UnsortedFormula → Prop :=
  IsFormula (firstOrder unsortedNote) IsBareVariable

end Syntax

end Tptp
