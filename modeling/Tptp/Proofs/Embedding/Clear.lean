import Tptp.Proofs.Embedding.Surplus
import Tptp.Proofs.Composed.Grammar

/-!
# Where Parsers Stop

Formulas and terms take the layout behind them, and so do names of units and their
annotations.

Every token takes the layout behind it, and each of these productions ends with a
token. Some of the parts do not have to match anything, such as the arguments of an
application; these leave no layout if there is none in front of them.

So what stands behind one of them in a larger text stands right behind it.

## Main definitions

* `Clears`: Where the parser stops no layout is left.
* `Keeps`: It stops in front of layout only where it starts in front of it.

## Theorems

* `clears_term`, `clears_literal`, `clears_clause`: Terms and clauses.
* `clears_formula`: Formulas of all languages.
* `clears_unitName`, `clears_provenance`: What else is written in a unit.
-/

namespace Tptp

namespace Reading

variable {α β : Type}

/-- Where the parser stops no layout is left. -/
def Clears (p : Parser α) : Prop :=
  Relates p fun _ _ left => Significant left

/-- Where the parser stops no layout is left, if there was none where it started. -/
def Keeps (p : Parser α) : Prop :=
  Relates p fun text _ left => Significant text → Significant left

namespace Keeps

variable {p : Parser α}

theorem pure (a : α) : Keeps (pure a : Parser α) :=
  (Relates.pure a).mono fun _ _ _ h hclear => h.2 ▸ hclear

theorem fail (label : String) : Keeps (Parser.fail label : Parser α) :=
  ⟨fun h => absurd h (by simp only [Parser.outcome_fail, reduceCtorEq, not_false_eq_true])⟩

theorem bind {next : α → Parser β} (hp : Keeps p) (hnext : ∀ a, Keeps (next a)) :
    Keeps (p >>= next) :=
  (Relates.bind hp hnext).mono fun _ _ _ ⟨_, _, h, h'⟩ hclear => h' (h hclear)

theorem ifOpens (c : Char) {q : Parser α} (hp : Keeps p) (hq : Keeps q) :
    Keeps (Parser.ifOpens c p q) :=
  Relates.ifOpens c hp hq

/-- A series of matches keeps what each of them keeps. -/
theorem steps {text left : List Char} {values : List α}
    (h : Steps (fun text (_ : α) left => Significant text → Significant left) text values left) :
    Significant text → Significant left := by
  induction h with
  | nil => exact id
  | cons item _ ih => exact fun hclear => ih (item hclear)

theorem many (hp : Keeps p) : Keeps (Parser.many p) :=
  (Relates.many hp).mono fun _ _ _ => steps

theorem repeatWhile (inSight : Rest → Bool) (hp : Keeps p) :
    Keeps (Parser.repeatWhile inSight p) :=
  (Relates.repeatWhile inSight hp).mono fun _ _ _ => steps

/-- The value of a parser is built without reading on. -/
theorem build (value : Except Refusal α) : Keeps (Parser.build value) := by
  cases value with
  | ok value => exact .pure value
  | error refusal => exact Relates.abort _

end Keeps

namespace Clears

variable {p q : Parser α}

theorem keeps (hp : Clears p) : Keeps p :=
  Relates.mono hp fun _ _ _ h _ => h

theorem abort (reason : Abort) : Clears (Parser.abort reason : Parser α) :=
  Relates.abort reason

theorem labeled (label : String) (hp : Clears p) : Clears (Parser.labeled label p) :=
  Relates.labeled label hp

theorem orElse (hp : Clears p) (hq : Clears q) : Clears (p <|> q) :=
  Relates.orElse hp hq

theorem ifOpens (c : Char) (hp : Clears p) (hq : Clears q) : Clears (Parser.ifOpens c p q) :=
  Relates.ifOpens c hp hq

theorem map (f : α → β) (hp : Clears p) : Clears (f <$> p) :=
  (Relates.map hp f).mono fun _ _ _ ⟨_, h, _⟩ => h

/-- The last step clears. -/
theorem bind {R : List Char → α → List Char → Prop} {next : α → Parser β} (hp : Relates p R)
    (hnext : ∀ a, Clears (next a)) : Clears (p >>= next) :=
  (hp.bind hnext).mono fun _ _ _ ⟨_, _, _, h⟩ => h

/-- The first step clears, and the second one keeps this. -/
theorem «then» {next : α → Parser β} (hp : Clears p) (hnext : ∀ a, Keeps (next a)) :
    Clears (p >>= next) :=
  (Relates.bind hp hnext).mono fun _ _ _ ⟨_, _, hclear, h⟩ => h hclear

theorem lexeme {R : List Char → α → List Char → Prop} (hp : Relates p R) :
    Clears (Parser.lexeme p) :=
  (relates_lexeme hp).mono fun _ _ _ ⟨_, _, _, h⟩ => h

theorem operator (sign : String) : Clears (Parser.operator sign) :=
  .lexeme (relates_expect fun h => h)

theorem token (word : String) : Clears (Parser.token word) :=
  .lexeme (relates_expect fun h => (Bool.and_eq_true _ _ ▸ h).1)

/-- An item between two signs. -/
theorem between {R : List Char → α → List Char → Prop} (opening closing : String)
    (hp : Relates p R) : Clears (Parser.between opening closing p) :=
  .bind (R := fun _ _ left => Significant left) (operator opening) fun _ => .bind hp fun _ =>
    .then (.operator closing) fun _ => .pure _

theorem parens {R : List Char → α → List Char → Prop} (hp : Relates p R) :
    Clears (Parser.parens p) := by
  rw [Parser.parens_eq]
  exact (between "(" ")" hp).labeled _

theorem orParens {R : List Char → α → List Char → Prop} (hp : Clears p) (hq : Relates q R) :
    Clears (Parser.orParens p q) :=
  (hp.orElse (.parens hq)).ifOpens _ hp

/-- Parentheses are taken away until the item itself clears. -/
theorem optionalParens {p : Nat → Parser α} (hp : ∀ n, Clears (p n))
    (hcomposed : ∀ commas n, Composed false commas (p n)) (allowance : Nat) :
    Clears (Parser.optionalParens p allowance) := by
  cases allowance with
  | zero => exact abort _
  | succ n =>
      have hinner : Composed false false (Parser.optionalParens p n) :=
        .optionalParens hcomposed n
      exact (hp n).orParens hinner.balanced

theorem tagged {R : List Char → α → List Char → Prop} (tag : String) (hp : Relates p R) :
    Clears (Parser.tagged tag p) :=
  .bind (R := fun _ _ left => Significant left) (token tag) fun _ => .parens hp

/-- A part behind a comma may be missing. -/
theorem maybeComma (hp : Clears p) : Keeps (Parser.maybeComma p) := by
  have hcomma : Clears (Parser.comma p) := .bind (operator ",") fun _ => hp
  exact Relates.orElse (hcomma.map _).keeps (Keeps.pure _)

/-- The arguments of an application may be missing. -/
theorem arguments {R : List Char → α → List Char → Prop} (hp : Relates p R) :
    Keeps (Parser.arguments p) := by
  rw [Parser.arguments_eq]
  refine .ifOpens _ (Clears.keeps (.between (R := fun _ _ _ => True) _ _ ?_)) (.pure _)
  have hcomma : Relates (Parser.comma p) fun _ _ _ => True :=
    (Relates.bind (Clears.operator ",") fun _ => hp).mono fun _ _ _ _ => trivial
  refine (hp.bind fun first => (hcomma.repeatWhile _).bind fun others =>
    .pure (first :: others)).mono fun _ _ _ _ => trivial

end Clears

end Reading

namespace Grammar

open Reading Parser

theorem clears_atom : Clears atom := by
  have htext : Clears (lexeme (quoted '\x27' <|> lowerWord)) :=
    .lexeme (R := fun _ _ _ => True) (.orElse
      ((relates_quoted _).mono fun _ _ _ _ => trivial)
      ((relates_word _ _).mono fun _ _ _ _ => trivial))
  refine .labeled _ (htext.then fun text => ?_)
  split
  · exact .fail _
  · exact .build _

theorem clears_var : Clears var :=
  .labeled _ ((Clears.lexeme (relates_word _ _)).then fun _ => .build _)

theorem clears_distinctObject : Clears distinctObject :=
  .labeled _ ((Clears.lexeme (relates_quoted _)).then fun _ => .build _)

theorem clears_reserved (V : Type) [Vocabulary V] : Clears (reserved V) :=
  .labeled _ ((Clears.lexeme (relates_word _ _)).map _)

theorem clears_name (V : Type) [Vocabulary V] : Clears (name V) := by
  refine .labeled _ (.orElse ?_ (clears_atom.map _))
  exact .bind (relates_expect fun h => h) fun _ => (clears_reserved V).map _

theorem clears_number : Clears number := by
  refine .labeled _ (.orElse ?_ ?_)
  · refine .bind relates_signedInteger fun _ => .bind relates_slash fun _ =>
      .then (relates_integer.mono ?_) fun denominator => ?_
    · rintro _ _ _ ⟨_, _, _, _, _, _, h⟩
      exact h
    · split
      · exact .fail _
      · exact .build _
  · refine .then (.lexeme relates_decimalLiteral) fun literal => ?_
    split
    · exact .pure _
    · exact Relates.abort _

/-- An application ends with its arguments, or with its name. -/
theorem clears_functionTerm {argument : Parser Term} (h : Composed false true argument) :
    Clears (functionTerm argument) :=
  ((clears_name DefinedFunction).labeled _).then fun _ =>
    (Clears.arguments h.balanced).bind fun _ => .pure _

theorem clears_termRule {argument : Parser Term} (h : Composed false true argument) :
    Clears (termRule argument) := by
  -- Whatever the next character decides for, it ends with a token or with arguments.
  have hby : ∀ head, Clears (termBy argument head) := by
    rintro (_ | c)
    · exact clears_functionTerm h
    · rw [termBy]
      split
      · exact clears_var.map _
      · split
        · exact clears_distinctObject.map _
        · split
          · exact clears_number.map _
          · exact clears_functionTerm h
  rw [termRule_eq]
  exact .labeled _ (Relates.of_outcome fun text => ⟨_, hby text.head?, rfl⟩)

theorem clears_term (allowance : Nat) : Clears (term allowance) := by
  cases allowance with
  | zero => exact .abort _
  | succ allowance => exact clears_termRule (composed_termArgument allowance)

theorem clears_termArgument (allowance : Nat) : Clears (termArgument allowance) := by
  cases allowance with
  | zero => exact .abort _
  | succ allowance =>
      have hargument : Composed false false (termArgument allowance) :=
        composed_termArgument allowance
      exact (clears_term allowance).orParens hargument.balanced

theorem clears_literal (allowance : Nat) : Clears (literal allowance) := by
  have hterm : Composed false true (termArgument allowance) := composed_termArgument allowance
  have hsign : Composed false true equalitySign :=
    .labeled _ (.member fun s => by cases s <;> decide)
  refine .orElse ?_ (.labeled _ ?_)
  · exact .bind hterm.balanced fun _ => .bind hsign.balanced fun _ =>
      (clears_termArgument allowance).then fun _ => .pure _
  · exact ((clears_name DefinedPredicate).labeled _).then fun _ =>
      (Clears.arguments hterm.balanced).bind fun _ => .pure _

theorem clears_signedLiteral (allowance : Nat) : Clears (signedLiteral allowance) := by
  have hliteral : Clears (optionalParens literal allowance) :=
    .optionalParens clears_literal (fun _ => composed_literal) allowance
  refine .ifOpens _ ?_ ((clears_literal allowance).then fun _ => .pure _)
  exact .bind (Clears.operator "~") fun _ => hliteral.then fun _ => .pure _

theorem clears_unitClause (allowance : Nat) : Clears (unitClause allowance) :=
  (clears_signedLiteral allowance).map _

theorem clears_disjunction {part : Parser Clause} (h : Clears part) :
    Clears (disjunction part) := by
  have hnext : Clears (operator "|" >>= fun _ => part) := .bind (Clears.operator "|") fun _ => h
  exact h.then fun _ => (hnext.keeps.repeatWhile _).bind fun _ => .pure _

theorem clears_subclause (allowance : Nat) : Clears (subclause allowance) := by
  induction allowance with
  | zero => exact .abort _
  | succ allowance ih =>
      have hunit := clears_unitClause allowance
      exact .ifOpens _ (hunit.orElse (.parens (clears_disjunction ih))) (hunit.labeled _)

theorem clears_clause (allowance : Nat) : Clears (clause allowance) :=
  clears_disjunction (clears_subclause allowance)

section

variable {F B : Type} {dialect : Dialect F B}

theorem clears_chain {unitary : Parser F} (h : Clears unitary) :
    Clears (chain dialect unitary) := by
  have hconnective : Composed false false (labeled "connective" (member Connective)) :=
    .labeled _ (.member fun c => by cases c <;> decide)
  have hnext : Clears (connection unitary) :=
    .bind hconnective.balanced fun _ => h.then fun _ => .pure _
  exact h.then fun _ => hnext.keeps.many.bind fun _ => .pure _

theorem clears_unitaryRule {allowance : Nat} {inner : Parser F}
    (hbinder : Composed false true (dialect.binder allowance)) (h : Clears inner) :
    Clears (unitaryRule dialect allowance inner) := by
  have hquantifier : Composed false true (labeled "quantifier" (member Quantifier)) :=
    .labeled _ (.member fun q => by cases q <;> decide)
  have hbound : Composed false true (bracketList1 (dialect.binder allowance)) :=
    hbinder.bracketList1
  have hquantification : Clears (quantification dialect allowance inner) :=
    .bind hquantifier.balanced fun _ => .bind hbound.balanced fun _ =>
      .bind (Clears.operator ":") fun _ => h.then fun _ => .build _
  have hbasic : Clears (basicFormula dialect allowance inner) :=
    ((clears_literal allowance).map _).orParens (clears_chain h)
  refine .labeled _ (.ifOpens _ (.bind (Clears.operator "~") fun _ => h.then fun _ => .pure _)
    (.ifOpens _ hquantification (.ifOpens _ hquantification ?_)))
  split
  · have hmodality : Composed false true (labeled "modality" (member Modality)) :=
      .labeled _ (.member fun m => by cases m <;> decide)
    exact .ifOpens _ (.bind hmodality.balanced fun _ => .bind (Clears.operator ":") fun _ =>
      h.then fun _ => .pure _) hbasic
  · exact hbasic

theorem clears_formulaOf (hbinder : ∀ n, Composed false true (dialect.binder n))
    (allowance : Nat) : Clears (formulaOf dialect allowance) := by
  refine clears_chain ?_
  induction allowance with
  | zero => exact .abort _
  | succ allowance ih => exact clears_unitaryRule (hbinder allowance) ih

end

theorem clears_unsortedFormula (allowance : Nat) : Clears (unsortedFormula allowance) :=
  .labeled _ (clears_formulaOf (composed_notedVariable fun _ => .pure _) allowance)

theorem clears_polyFormula (allowance : Nat) : Clears (polyFormula allowance) :=
  .labeled _ (clears_formulaOf
    (composed_notedVariable (composed_sortedNote fun _ => composed_polyRange)) allowance)

theorem clears_modalFormula (allowance : Nat) : Clears (modalFormula allowance) :=
  clears_formulaOf (fun _ => composed_var) allowance

theorem clears_formula (language : Language) (allowance : Nat) :
    Clears (formula language allowance) := by
  cases language with
  | cnf => exact .labeled _ ((clears_clause allowance).map _)
  | fof => exact .labeled _ ((clears_unsortedFormula allowance).map _)
  | tff => exact .labeled _ ((clears_polyFormula allowance).map _)
  | qmf => exact .labeled _ ((clears_modalFormula allowance).map _)

theorem clears_unitName : Clears unitName := by
  refine .labeled _ (.orElse (clears_atom.map _) (.map _ (relates_signedInteger.mono ?_)))
  rintro _ _ _ ⟨_, _, _, _, _, _, _, _, h⟩
  exact h

theorem clears_infos (allowance : Nat) : Clears (infos allowance) := by
  have hitem : Composed false true (info allowance) := (composed_info_and_argument allowance).1
  have hlist : Composed false true (sepBy (info allowance) (operator ",")) :=
    hitem.sepBy (by decide) .comma
  exact .labeled _ (.labeled _ (.labeled _ (.between "[" "]" hlist.balanced)))

theorem clears_source (allowance : Nat) : Clears (source allowance) := by
  cases allowance with
  | zero => exact .abort _
  | succ allowance =>
      have htagged : ∀ {tag : String} {p : Parser Source}, Composed false true p →
          Clears (tagged tag p) := fun hp => .tagged _ hp.balanced
      -- All sources that have a keyword end with the parenthesis behind their parts.
      exact .labeled _ (.orElse ((Clears.token "unknown").map _) <|
        .orElse (htagged composed_file) <| .orElse (htagged (composed_theory allowance)) <|
        .orElse (htagged (composed_creator allowance)) <|
        .orElse (htagged (composed_introduced allowance)) <|
        .orElse (htagged (composed_inference (composed_parentRule (composed_source allowance)))) <|
        clears_unitName.map _)

theorem clears_provenance (allowance : Nat) : Clears (provenance allowance) :=
  .labeled _ ((clears_source allowance).then fun _ =>
    (clears_infos allowance).maybeComma.bind fun _ => .pure _)

end Grammar

end Tptp
