import Tptp.Proofs.Boundary.Production

/-!
# Parsers Made of Tokens

Whatever is made of productions and of parsers that respect tokens respects tokens.

The parts may be any parsers that see the session, also such as go back in the text or look at
what is on record, as long as they respect tokens. A token itself need not: inside of it the
text is read by characters, and it is the layout behind it that counts. So the only parsers
that have no place here are those that leave a token before it is over.

The chains and the quantifiers of formulas are written for parsers that see only what is left.
They are lifted to sessions step by step.

## Main definitions

* `IsTokenwise`: What the combinators make of productions, tokens and parsers that respect
  tokens.

## Theorems

* `respectsTokens_chain`, `respectsTokens_unitaryRule`: Formulas with given parts.
* `IsTokenwise.respectsTokens`: What is made of tokens respects tokens.
* `IsTokenwise.step_atToken`: From token to token.
-/

namespace Tptp

namespace Reading

variable {α β : Type}

namespace RespectsTokens

variable {p q : Parser α}

theorem lift_orElse (hp : RespectsTokens (Parser.lift p)) (hq : RespectsTokens (Parser.lift q)) :
    RespectsTokens (Parser.lift (p <|> q)) :=
  hp.orElse hq

theorem lift_ifOpens (c : Char) (hp : RespectsTokens (Parser.lift p))
    (hq : RespectsTokens (Parser.lift q)) :
    RespectsTokens (Parser.lift (Parser.ifOpens c p q)) :=
  hp.ifOpens c hq

theorem lift_many (hp : RespectsTokens (Parser.lift p)) :
    RespectsTokens (Parser.lift (Parser.many p)) := by
  rw [Parser.lift_many]
  exact hp.many

theorem lift_build (value : Except Refusal α) :
    RespectsTokens (Parser.lift (Parser.build value)) := by
  cases value with
  | ok value => exact .pure value
  | error refusal => exact .abort _

theorem lift_between (opening closing : String) (hp : RespectsTokens (Parser.lift p)) :
    RespectsTokens (Parser.lift (Parser.between opening closing p)) :=
  (operator opening).lift_bind fun _ => hp.lift_bind fun _ =>
    (operator closing).lift_bind fun _ => .pure _

theorem lift_bracketList1 (hp : RespectsTokens (Parser.lift p)) :
    RespectsTokens (Parser.lift (Parser.bracketList1 p)) := by
  have hothers := ((operator ",").lift_bind fun _ => hp).lift_many
  have hitems : RespectsTokens (Parser.lift (Parser.sepBy1 p (Parser.operator ","))) :=
    hp.lift_bind fun _ => hothers.lift_bind fun _ => .pure _
  exact ((hitems.lift_between "[" "]").lift_labeled _).lift_labeled _

end RespectsTokens

end Reading

namespace Grammar

open Reading Parser

section

variable {F B : Type} (dialect : Dialect F B)

/-- A label and a member of a vocabulary. -/
theorem respectsTokens_labeledMember (V : Type) [Vocabulary V] (label : String) :
    RespectsTokens (lift (labeled label (member V))) :=
  (RespectsTokens.member V).lift_labeled label

theorem respectsTokens_chain {unitary : Parser F} (h : RespectsTokens (lift unitary)) :
    RespectsTokens (lift (chain dialect unitary)) := by
  have hconnection : RespectsTokens (lift (connection unitary)) :=
    (respectsTokens_labeledMember Connective _).lift_bind fun _ => h.lift_bind fun _ => .pure _
  exact h.lift_bind fun _ => hconnection.lift_many.lift_bind fun _ => .pure _

theorem respectsTokens_unitaryRule {allowance : Nat} {inner : Parser F}
    (hbinder : RespectsTokens (lift (dialect.binder allowance)))
    (h : RespectsTokens (lift inner)) :
    RespectsTokens (lift (unitaryRule dialect allowance inner)) := by
  have hnegation : RespectsTokens (lift (negation dialect inner)) :=
    (RespectsTokens.operator "~").lift_bind fun _ => h.lift_bind fun _ => .pure _
  have hquantification : RespectsTokens (lift (quantification dialect allowance inner)) :=
    (respectsTokens_labeledMember Quantifier _).lift_bind fun _ =>
      hbinder.lift_bracketList1.lift_bind fun _ =>
        (RespectsTokens.operator ":").lift_bind fun _ => h.lift_bind fun _ => .lift_build _
  have hliteral : RespectsTokens (lift (dialect.atomic <$> literal allowance)) :=
    (IsProduction.respectsTokens (.literal allowance)).lift_map _
  have hparens : RespectsTokens (lift (parens (chain dialect inner))) :=
    ((respectsTokens_chain dialect h).lift_between "(" ")").lift_labeled _
  have hbasic : RespectsTokens (lift (basicFormula dialect allowance inner)) :=
    (hliteral.lift_orElse hparens).lift_ifOpens _ hliteral
  refine .lift_labeled _ (hnegation.lift_ifOpens _ (hquantification.lift_ifOpens _
    (hquantification.lift_ifOpens _ ?_)))
  split
  · have hmodality := respectsTokens_labeledMember Modality "modality"
    exact (hmodality.lift_bind fun _ => (RespectsTokens.operator ":").lift_bind fun _ =>
      h.lift_bind fun _ => .pure _).lift_ifOpens _ hbasic
  · exact hbasic

theorem respectsTokens_formulaOf (hbinder : ∀ n, RespectsTokens (lift (dialect.binder n)))
    (allowance : Nat) : RespectsTokens (lift (formulaOf dialect allowance)) := by
  refine respectsTokens_chain dialect ?_
  induction allowance with
  | zero => exact .abort _
  | succ allowance ih => exact respectsTokens_unitaryRule dialect (hbinder allowance) ih

end

theorem respectsTokens_notedVariable {α : Type} {note : Nat → Parser α}
    (h : ∀ n, RespectsTokens (lift (note n))) (allowance : Nat) :
    RespectsTokens (lift (notedVariable note allowance)) :=
  (IsProduction.respectsTokens .var).lift_bind fun _ => (h allowance).lift_bind fun _ => .pure _

end Grammar

namespace Reading

open Grammar

/-- The parser is made of productions, of tokens and of parsers that respect tokens. -/
inductive IsTokenwise : {α : Type} → ParserOn Session α → Prop where
  | respects {α : Type} {p : ParserOn Session α} (h : RespectsTokens p) : IsTokenwise p
  | production {α : Type} {p : Parser α} (h : IsProduction p) : IsTokenwise (Parser.lift p)
  | transcript (allowance : Nat) : IsTokenwise (Parser.lift (transcript allowance))
  | operator (sign : String) : IsTokenwise (Parser.lift (Parser.operator sign))
  | token (word : String) : IsTokenwise (Parser.lift (Parser.token word))
  | member (V : Type) [Vocabulary V] : IsTokenwise (Parser.lift (Parser.member V))
  | integer : IsTokenwise (Parser.lift Parser.integer)
  /-- The token itself need only stay in the text. -/
  | rawLexeme {α : Type} {p : ParserOn Session α} (hp : StaysInText p) :
      IsTokenwise (Parser.lexeme p)
  | lexeme {α : Type} {p : ParserOn Session α} (hp : IsTokenwise p) :
      IsTokenwise (Parser.lexeme p)
  | pure {α : Type} (value : α) : IsTokenwise (pure value)
  | bind {α β : Type} {p : ParserOn Session α} {next : α → ParserOn Session β}
      (hp : IsTokenwise p) (hnext : ∀ a, IsTokenwise (next a)) : IsTokenwise (p >>= next)
  | labeled {α : Type} {p : ParserOn Session α} (label : String) (hp : IsTokenwise p) :
      IsTokenwise (Parser.labeled label p)
  | choice {α : Type} {others : List (ParserOn Session α)} (h : ∀ p ∈ others, IsTokenwise p) :
      IsTokenwise (Parser.choice others)
  | optional {α : Type} {p : ParserOn Session α} (hp : IsTokenwise p) :
      IsTokenwise (Parser.optional p)
  | withDefault {α : Type} {p : ParserOn Session α} (value : α) (hp : IsTokenwise p) :
      IsTokenwise (Parser.withDefault value p)
  | sepBy1 {α β : Type} {p : ParserOn Session α} {separator : ParserOn Session β}
      (hp : IsTokenwise p) (hseparator : IsTokenwise separator) :
      IsTokenwise (Parser.sepBy1 p separator)
  | sepBy {α β : Type} {p : ParserOn Session α} {separator : ParserOn Session β}
      (hp : IsTokenwise p) (hseparator : IsTokenwise separator) :
      IsTokenwise (Parser.sepBy p separator)
  | repeatWhile {α : Type} {p : ParserOn Session α} (inSight : Rest → Bool)
      (hp : IsTokenwise p) : IsTokenwise (Parser.repeatWhile inSight p)
  | ifOpens {α : Type} {p q : ParserOn Session α} (c : Char) (hp : IsTokenwise p)
      (hq : IsTokenwise q) : IsTokenwise (Parser.ifOpens c p q)
  | comma {α : Type} {p : ParserOn Session α} (hp : IsTokenwise p) : IsTokenwise (Parser.comma p)
  | maybeComma {α : Type} {p : ParserOn Session α} (hp : IsTokenwise p) :
      IsTokenwise (Parser.maybeComma p)
  | parens {α : Type} {p : ParserOn Session α} (hp : IsTokenwise p) :
      IsTokenwise (Parser.parens p)
  | optionalParens {α : Type} {p : Nat → ParserOn Session α} (hp : ∀ n, IsTokenwise (p n))
      (allowance : Nat) : IsTokenwise (Parser.optionalParens p allowance)
  | brackets {α : Type} {p : ParserOn Session α} (hp : IsTokenwise p) :
      IsTokenwise (Parser.brackets p)
  | bracketList {α : Type} {p : ParserOn Session α} (hp : IsTokenwise p) :
      IsTokenwise (Parser.bracketList p)
  | bracketList1 {α : Type} {p : ParserOn Session α} (hp : IsTokenwise p) :
      IsTokenwise (Parser.bracketList1 p)
  | arguments {α : Type} {p : ParserOn Session α} (hp : IsTokenwise p) :
      IsTokenwise (Parser.arguments p)
  | tagged {α : Type} {p : ParserOn Session α} (tag : String) (hp : IsTokenwise p) :
      IsTokenwise (Parser.tagged tag p)
  | mapping {α : Type} {p : ParserOn Session α} (hp : IsTokenwise p) :
      IsTokenwise (Grammar.mapping p)
  | sortedNote {α : Type} {sort : Nat → ParserOn Session α} (hsort : ∀ n, IsTokenwise (sort n))
      (allowance : Nat) : IsTokenwise (Grammar.sortedNote sort allowance)
  | chain {F B : Type} (dialect : Dialect F B) {unitary : Parser F}
      (h : IsTokenwise (Parser.lift unitary)) : IsTokenwise (Parser.lift (chain dialect unitary))
  | unitary {F B : Type} (dialect : Dialect F B) {allowance : Nat} {inner : Parser F}
      (hbinder : IsTokenwise (Parser.lift (dialect.binder allowance)))
      (h : IsTokenwise (Parser.lift inner)) :
      IsTokenwise (Parser.lift (unitaryRule dialect allowance inner))
  | firstOrder {α : Type} {note : Nat → Parser α} (hnote : ∀ n, IsTokenwise (Parser.lift (note n)))
      (allowance : Nat) : IsTokenwise (Parser.lift (formulaOf (firstOrder note) allowance))

variable {α : Type} {p : ParserOn Session α}

/-- What is made of parsers that respect tokens respects tokens. -/
theorem IsTokenwise.respectsTokens (h : IsTokenwise p) : RespectsTokens p := by
  induction h with
  | respects h => exact h
  | production h => exact h.respectsTokens
  | transcript allowance => exact respectsTokens_transcript allowance
  | operator sign => exact .operator sign
  | token word => exact .token word
  | member V => exact .member V
  | integer => exact .integer
  | rawLexeme hp => exact .lexeme hp
  | lexeme _ ih => exact .lexeme ih.staysInText
  | pure value => exact .pure value
  | bind _ _ ihp ihnext => exact ihp.bind ihnext
  | labeled label _ ih => exact ih.labeled label
  | choice _ ih => exact .choice ih
  | optional _ ih => exact ih.optional
  | withDefault value _ ih => exact ih.withDefault value
  | sepBy1 _ _ ihp ihseparator => exact ihp.sepBy1 ihseparator
  | sepBy _ _ ihp ihseparator => exact ihp.sepBy ihseparator
  | repeatWhile inSight _ ih => exact ih.repeatWhile inSight
  | ifOpens c _ _ ihp ihq => exact ihp.ifOpens c ihq
  | comma _ ih => exact ih.comma
  | maybeComma _ ih => exact ih.maybeComma
  | parens _ ih => exact ih.parens
  | optionalParens _ allowance ih => exact .optionalParens ih allowance
  | brackets _ ih => exact ih.brackets
  | bracketList _ ih => exact ih.bracketList
  | bracketList1 _ ih => exact ih.bracketList1
  | arguments _ ih => exact ih.arguments
  | tagged tag _ ih => exact ih.tagged tag
  | mapping _ ih => exact ih.mapping
  | sortedNote _ allowance ih => exact .sortedNote ih allowance
  | chain dialect _ ih => exact respectsTokens_chain dialect ih
  | unitary dialect _ _ ihbinder ih => exact respectsTokens_unitaryRule dialect ihbinder ih
  | firstOrder _ allowance ih =>
      exact respectsTokens_formulaOf _ (respectsTokens_notedVariable ih) allowance

/-- Where a step of such a parser has matched, the session is at the place behind it, which is
    the end of the text or a place where no layout starts. Skipping layout there changes
    nothing. -/
theorem IsTokenwise.step_atToken (h : IsTokenwise p) {session next : Session} {value : α}
    {after : Rest} (hat : session.AtToken) (hstep : session.step p = (.done value after, next)) :
    next.AtToken ∧ next.rest = after ∧
      next.step (Parser.lift Parser.skipLayout) = (.done () after, next) := by
  rw [Session.step] at hstep
  rcases hresult : p session with ⟨⟨found, stop⟩ | _ | _, dropped⟩
  · rw [hresult, Prod.mk.injEq, Outcome.done.injEq] at hstep
    rcases hstep with ⟨⟨-, rfl⟩, rfl⟩
    have hend : (Place.moveTo session stop dropped).AtToken := hat.then h.respectsTokens hresult
    exact ⟨hend, rfl, hend.step_skipLayout⟩
  · rw [hresult] at hstep
    cases congrArg Prod.fst hstep
  · rw [hresult] at hstep
    cases congrArg Prod.fst hstep

/-- A list of terms in front of a full stop. Behind the closing bracket there is a comment, and
    the step leads to the full stop behind it. -/
theorem IsTokenwise.step_atToken_fullStop :
    ∃ values after next,
      (Session.start "[a , b] % c\n.".toList).step
        (Parser.bracketList1 (Parser.lift (term 2))) = (.done values after, next) ∧
      next.position = 12 ∧ next.AtToken ∧
      next.step (Parser.lift Parser.skipLayout) = (.done () after, next) := by
  have hparser : IsTokenwise (Parser.bracketList1 (Parser.lift (term 2))) :=
    .bracketList1 (.production (.term 2))
  have hat : (Session.start "[a , b] % c\n.".toList).AtToken :=
    ⟨⟨0, Nat.zero_le _, (Rest.ofPosition_zero _).symm⟩,
      significant_cons (by decide) (by decide) (by decide)⟩
  have hplace : ((Session.start "[a , b] % c\n.".toList).step
      (Parser.bracketList1 (Parser.lift (term 2)))).2.position = 12 := by decide +kernel
  rcases hresult : Parser.bracketList1 (Parser.lift (term 2))
    (Session.start "[a , b] % c\n.".toList) with ⟨⟨values, after⟩ | _ | _, dropped⟩
  · rw [Session.step, hresult] at hplace ⊢
    rcases hparser.step_atToken hat (by rw [Session.step, hresult]) with ⟨hend, -, hskip⟩
    exact ⟨values, after, _, rfl, hplace, hend, hskip⟩
  -- A step that does not match leaves the session at its place.
  · rw [Session.step, hresult] at hplace
    have hstart : 0 = 12 := hplace
    omega
  · rw [Session.step, hresult] at hplace
    have hstart : 0 = 12 := hplace
    omega

end Reading

end Tptp
